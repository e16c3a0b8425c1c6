import GateLevel.Proofs.Source.Mentions

/-! The flip-flops of a text that is read are the numbers it mentions, in the order of their first
mention, and every mention has the slot of its number. -/

namespace GateLevel.Source

theorem Numbers.lt {flipflops : List UInt16} {mentions : List (List Char)}
    (numbers : Numbers flipflops mentions) {mention : List Char} (member : mention ∈ mentions) :
    decimalValue mention < 65536 := by
  have listed : decimalValue mention ∈ flipflops.map UInt16.toNat := by
    rw [numbers, List.mem_eraseDups]
    exact List.mem_map_of_mem member
  obtain ⟨number, _, value⟩ := List.mem_map.mp listed
  rw [← value]
  exact number.toNat_lt

theorem Points.slot_eq_iff {flipflops : List UInt16} (distinct : flipflops.Nodup) {slot other : Nat}
    {mention twin : List Char} (points : Points flipflops slot mention)
    (otherPoints : Points flipflops other twin) :
    slot = other ↔ decimalValue mention = decimalValue twin := by
  constructor
  · rintro rfl
    exact Option.some.inj (points.symm.trans otherPoints)
  · intro same
    obtain ⟨number, found, value⟩ := Option.map_eq_some_iff.mp points
    obtain ⟨twinNumber, twinFound, twinValue⟩ := Option.map_eq_some_iff.mp otherPoints
    have equal : number = twinNumber :=
      UInt16.toNat_inj.mp (value.trans (same.trans twinValue.symm))
    refine (List.getElem?_inj (List.getElem?_eq_some_iff.mp found).1 distinct).mp ?_
    rw [found, twinFound, equal]

/-- The reader has read all lines in front of the line with this number, and on that line all words
in front of these. A list of pins and an expression are read as a whole. -/
inductive Comes (text : String) : Nat → Reader → List (List Char) → Prop
  | line {before rest : List (List Char)} {line : List Char} {reader : Reader} :
      Text.lines text.toList = before ++ line :: rest →
      Reader.readLines 1 before .start = .ok reader → isComment line = false →
      Comes text (before.length + 1) reader (Text.words line)
  | word {number : Nat} {phase : Phase} {declaration : Declaration} {word : List Char}
      {rest : List (List Char)} {reader : Reader} :
      Comes text number ⟨phase, declaration⟩ (word :: rest) →
      readWords [word] phase declaration = .ok reader →
      phase.place.next word = reader.phase.place → Comes text number reader rest

/-- A word that takes the reader on does the same whatever follows it. -/
theorem readWords_cons {phase : Phase} {declaration : Declaration} {word : List Char}
    {reader : Reader} (read : readWords [word] phase declaration = .ok reader)
    (arrived : phase.place.next word = reader.phase.place) (rest : List (List Char)) :
    readWords (word :: rest) phase declaration =
      readWords rest reader.phase reader.declaration := by
  cases wordStep phase declaration word with
  | moves middle _ step =>
      rw [step] at read ⊢
      cases read
      rfl
  | lists direction pins keyword _ =>
      rw [pins, Phase.place, Place.next, keyword, Place.afterPins_keyword] at arrived
      exact absurd arrived.symm reader.phase.place_ne_pinList
  | assigns target equals _ _ =>
      subst equals
      exact absurd arrived.symm reader.phase.place_ne_expression
  | fails fault step =>
      rw [step] at read
      cases read

theorem readLines_append (front back : List (List Char)) (number : Nat) (reader : Reader) :
    Reader.readLines number (front ++ back) reader =
      Reader.readLines number front reader >>= Reader.readLines (number + front.length) back := by
  induction front generalizing number reader with
  | nil => rfl
  | cons line front ih =>
      have moved : number + (line :: front).length = number + 1 + front.length := by
        rw [List.length_cons]
        omega
      rw [List.cons_append, Reader.readLines, Reader.readLines, moved]
      cases reader.readLine line with
      | error cause => rfl
      | ok middle => exact ih (number + 1) middle

theorem Comes.fails {text : String} {number : Nat} {reader : Reader} {words : List (List Char)}
    (comes : Comes text number reader words) {fault : Fault}
    (failed : readWords words reader.phase reader.declaration = .error fault) :
    readDeclaration text = .error (.fault number fault) := by
  induction comes with
  | @line before rest line reader lines read uncommented =>
      have stopped : reader.readLine line = .error fault := by
        rw [Reader.readLine, uncommented]
        exact failed
      have whole : Reader.readLines 1 (Text.lines text.toList) .start =
          .error (.fault (before.length + 1) fault) := by
        rw [lines, readLines_append, read, Nat.add_comm 1]
        simp only [bind, Except.bind, Reader.readLines, stopped]
      rw [readDeclaration, whole]
      rfl
  | word _ read arrived ih => exact ih ((readWords_cons read arrived _).trans failed)

/-- The reader comes to a word that it takes for a target or, all operands in front of it being
known, for an operand. -/
inductive Meets (text : String) : Nat → List Char → Prop
  | target {number : Nat} {declaration : Declaration} {word : List Char} {rest : List (List Char)} :
      Comes text number ⟨.body, declaration⟩ (word :: rest) → Meets text number word
  | operand {number : Nat} {target : Target} {declaration : Declaration}
      {words : List (List Char)} {front back : List Item} {word : List Char}
      {resolved : List Token × Declaration} :
      Comes text number ⟨.equals target, declaration⟩ (['='] :: words) →
      itemsOfWords words = some (front ++ .operand word :: back) →
      resolveItems front declaration = .ok resolved → Meets text number word

section

variable {word mention : List Char} (digits : flipflopDigits? word = some mention)
  (large : 65535 < decimalValue mention)
include digits large

theorem flipflopNumber?_of_large :
    flipflopNumber? word = .error (.invalidFlipflop (String.ofList word)) := by
  simp only [flipflopNumber?, digits]
  exact if_neg (by omega)

theorem readBodyWord_of_large (declaration : Declaration) :
    readBodyWord word declaration = .error (.invalidFlipflop (String.ofList word)) := by
  have unended : word ≠ "endmodule".toList := by
    rintro rfl
    cases digits
  have unassigned : word ≠ "assign".toList := by
    rintro rfl
    cases digits
  rw [readBodyWord, if_neg unended, if_neg unassigned, flipflopNumber?_of_large digits large]
  rfl

theorem resolveItems_of_large {front : List Item} {before : Declaration}
    {resolved : List Token × Declaration} (known : resolveItems front before = .ok resolved)
    (back : List Item) :
    resolveItems (front ++ .operand word :: back) before =
      .error (.invalidFlipflop (String.ofList word)) := by
  induction front generalizing before resolved with
  | nil =>
      rw [List.nil_append, resolveItems, resolveOperand, flipflopNumber?_of_large digits large]
      rfl
  | cons item front ih =>
      cases item with
      | gate gate =>
          obtain ⟨_, later, _⟩ := exists_of_bind_eq_ok known
          rw [List.cons_append, resolveItems, ih later]
          rfl
      | operand other =>
          obtain ⟨_, first, more⟩ := exists_of_bind_eq_ok known
          obtain ⟨_, later, _⟩ := exists_of_bind_eq_ok more
          rw [List.cons_append, resolveItems, first]
          simp only [bind, Except.bind]
          rw [ih later]

theorem Meets.fails {text : String} {number : Nat} (meets : Meets text number word) :
    readDeclaration text = .error (.fault number (.invalidFlipflop (String.ofList word))) := by
  cases meets with
  | target comes =>
      refine comes.fails ?_
      rw [readWords, readBodyWord_of_large digits large]
      rfl
  | operand comes read known =>
      refine comes.fails ?_
      simp only [readWords, if_true, addAssignment, read, resolveItems_of_large digits large known]
      rfl

end

/-- In a text that is read, the flip-flops are the numbers mentioned, each once and in the order of
their first mention; every mention has the slot of its number in its own assignment, and two
mentions have one slot just if their numbers are the same. A number of more than sixteen bits is
refused when the reader comes to it. -/
theorem readDeclaration_numbers (text : String) :
    (∀ declaration, readDeclaration text = .ok declaration →
      Numbers declaration.flipflops (mentionsOf text).flatten ∧
        List.Forall₂
          (fun assignment => List.Forall₂ (Points declaration.flipflops) assignment.slots)
          declaration.assignments (mentionsOf text) ∧
        (∀ (i j slot other : Nat) (mention twin : List Char),
          declaration.slots[i]? = some slot → (mentionsOf text).flatten[i]? = some mention →
          declaration.slots[j]? = some other → (mentionsOf text).flatten[j]? = some twin →
            (slot = other ↔ decimalValue mention = decimalValue twin)) ∧
        ∀ mention ∈ (mentionsOf text).flatten, decimalValue mention ≤ 65535) ∧
      ∀ number word mention, Meets text number word → flipflopDigits? word = some mention →
        65535 < decimalValue mention →
        readDeclaration text = .error (.fault number (.invalidFlipflop (String.ofList word))) := by
  refine ⟨fun declaration read => ?_, fun number word mention meets digits large =>
    meets.fails digits large⟩
  obtain ⟨numbered, points⟩ := readDeclaration_tracks read
  have distinct := (scoped_of_readDeclaration read).tidy.flipflops_distinct
  have flat : List.Forall₂ (Points declaration.flipflops) declaration.slots
      (mentionsOf text).flatten := by
    rw [Declaration.slots, List.flatMap_def]
    exact List.rel_flatten (List.forall₂_map_left_iff.mpr points)
  refine ⟨numbered, points, ?_, fun mention member => Nat.le_of_lt_succ (numbered.lt member)⟩
  intro i j slot other mention twin slotAt mentionAt otherAt twinAt
  have first := Correspondence.rel_getElem? flat i
  have last := Correspondence.rel_getElem? flat j
  rw [slotAt, mentionAt] at first
  rw [otherAt, twinAt] at last
  cases first with
  | some first =>
      cases last with
      | some last => exact first.slot_eq_iff distinct last

def ledger : String :=
  "module A (\nclk\noutput FF9\n);\nFF07 = FF2 OR (FF7)\n//FF8\nassign FF9 = FF02\nendmodule\n" ++
    "module B (\n);\nFF65535\n= FF3\nendmodule"

def ledgered : Declaration where
  name := "B"
  clocked := true
  inputs := []
  flipflops := [7, 2, 65535, 3]
  outputs := ["FF9"]
  assignments := [
    ⟨.flipflop 0, [.signal (.flipflop 1), .signal (.flipflop 0), .gate (.binary .or)]⟩,
    ⟨.output 0, [.signal (.flipflop 1)]⟩,
    ⟨.flipflop 2, [.signal (.flipflop 3)]⟩]

def overflowing : String :=
  "module M (\ninput a\noutput y\n);\nassign y = a OR (FF065536)\nendmodule\n"

def opened : Declaration := ⟨⟨"M", false, ["a"], [], ["y"]⟩, []⟩

theorem readDeclaration_numbers_ledger :
    readDeclaration ledger = .ok ledgered ∧
      mentionsOf ledger = [["07", "2", "7"], ["02"], ["65535", "3"]].map
        (List.map String.toList) ∧
      Numbers ledgered.flipflops (mentionsOf ledger).flatten ∧
      readDeclaration overflowing = .error (.fault 5 (.invalidFlipflop "FF065536")) := by
  have read : readDeclaration ledger = .ok ledgered := by decide +kernel
  have mentions : mentionsOf ledger = [["07", "2", "7"], ["02"], ["65535", "3"]].map
      (List.map String.toList) := by decide +kernel
  obtain ⟨numbered, _⟩ := (readDeclaration_numbers ledger).1 ledgered read
  refine ⟨read, mentions, numbered, ?_⟩
  have lines : Text.lines overflowing.toList =
      ["module M (", "input a", "output y", ");"].map String.toList ++
        "assign y = a OR (FF065536)".toList :: ["endmodule".toList] := by decide +kernel
  have words : Text.words "assign y = a OR (FF065536)".toList =
      ["assign", "y", "=", "a", "OR", "(FF065536)"].map String.toList := by decide +kernel
  have body : Comes overflowing 5 ⟨.body, opened⟩
      (Text.words "assign y = a OR (FF065536)".toList) :=
    .line lines (by decide +kernel) (by decide +kernel)
  rw [words] at body
  have target : Comes overflowing 5 ⟨.target, opened⟩ _ := body.word (by decide +kernel) rfl
  have equals : Comes overflowing 5 ⟨.equals (.output 0), opened⟩ _ :=
    target.word (by decide +kernel) rfl
  have items : itemsOfWords (["a", "OR", "(FF065536)"].map String.toList) =
      some ([.operand ['a']] ++ .operand "FF065536".toList :: [.gate (.binary .or)]) := by
    decide +kernel
  have known : resolveItems [.operand ['a']] opened = .ok ([.signal (.input 0)], opened) := by
    decide +kernel
  exact (readDeclaration_numbers overflowing).2 5 "FF065536".toList "065536".toList
    (.operand equals items known) (by decide +kernel) (by decide +kernel)

end GateLevel.Source
