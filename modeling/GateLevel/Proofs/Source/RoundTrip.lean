import GateLevel.Proofs.Source.Writer

/-! Reading the text of a declaration gives the declaration back. The header comes back whole; then
every assignment brings the flip-flops that it is the first to mention. -/

namespace GateLevel

namespace Header

def seen (header : Header) (slots : List Nat) : Header :=
  { header with flipflops := header.flipflops.take slots.eraseDups.length }

def InOrder (header : Header) (slots : List Nat) : Prop :=
  slots.eraseDups <+: List.range header.flipflops.length

theorem InOrder.front {header : Header} {front back : List Nat}
    (order : header.InOrder (front ++ back)) : header.InOrder front := by
  rw [InOrder, List.eraseDups_append] at order
  exact (List.prefix_append _ _).trans order

theorem InOrder.eraseDups_eq {header : Header} {slots : List Nat} (order : header.InOrder slots) :
    slots.eraseDups = List.range slots.eraseDups.length := by
  have whole := List.prefix_iff_eq_take.mp order
  rwa [List.take_range, min_eq_left (by simpa using order.length_le)] at whole

/-- Either the last flip-flop has been mentioned before, or its turn has come. -/
theorem InOrder.last {header : Header} {slots : List Nat} {index : Nat}
    (order : header.InOrder (slots ++ [index])) :
    (index < slots.eraseDups.length ∧
        (slots ++ [index]).eraseDups.length = slots.eraseDups.length) ∨
      (index = slots.eraseDups.length ∧
        (slots ++ [index]).eraseDups.length = slots.eraseDups.length + 1) := by
  have known := order.front.eraseDups_eq
  by_cases old : index ∈ slots
  · left
    constructor
    · rw [← List.mem_range, ← known]
      exact List.mem_eraseDups.mpr old
    · simp [List.eraseDups_append, List.removeAll, old]
  · right
    have grown : (slots ++ [index]).eraseDups = slots.eraseDups ++ [index] := by
      simp [List.eraseDups_append, List.removeAll, old, List.eraseDups_cons]
    have whole := order.eraseDups_eq
    rw [grown, List.length_append, List.length_singleton, List.range_succ, ← known] at whole
    exact ⟨List.singleton_inj.mp (List.append_cancel_left whole), by simp [grown]⟩

end Header

namespace Source

theorem idxOf?_eq_some_of_nodup {α : Type} [BEq α] [LawfulBEq α] {list : List α} {x : α}
    (distinct : list.Nodup) {index : Nat} (found : list[index]? = some x) :
    list.idxOf? x = some index := by
  obtain ⟨bound, rfl⟩ := List.getElem?_eq_some_iff.mp found
  refine List.idxOf?_eq_some_iff.mpr ⟨bound, rfl, ?_⟩
  intro earlier before same
  have equal := distinct.getElem_inj_iff.mp same
  omega

variable {header : Header}

/-- A mention finds its flip-flop, or else adds the one whose turn it is. -/
theorem mentionFlipflop_seen (distinct : header.flipflops.Nodup) (clocked : header.clocked = true)
    {slots : List Nat} {index : Nat} {number : UInt16}
    (found : header.flipflops[index]? = some number) (order : header.InOrder (slots ++ [index]))
    (assignments : List Assignment) :
    mentionFlipflop number ⟨header.seen slots, assignments⟩ =
      .ok (index, ⟨header.seen (slots ++ [index]), assignments⟩) := by
  have declared : declareFlipflop number ⟨header.seen slots, assignments⟩ =
      (index, ⟨header.seen (slots ++ [index]), assignments⟩) := by
    obtain ⟨bound, same⟩ := List.getElem?_eq_some_iff.mp found
    simp only [declareFlipflop, Header.seen]
    rcases order.last with ⟨old, length⟩ | ⟨new, length⟩
    · have place : (header.flipflops.take slots.eraseDups.length)[index]? = some number :=
        (List.getElem?_take_of_lt old).trans found
      rw [idxOf?_eq_some_of_nodup (distinct.sublist (List.take_sublist ..)) place, length]
    · have absent : number ∉ header.flipflops.take slots.eraseDups.length := by
        intro member
        obtain ⟨earlier, before, place⟩ := List.mem_take_iff_getElem.mp member
        have equal := distinct.getElem_inj_iff.mp (place.trans same.symm)
        omega
      rw [List.idxOf?_eq_none_iff.mpr absent, length, List.take_add_one, ← new, found]
      simp [Nat.le_of_lt bound]
  rw [mentionFlipflop, if_pos (show (header.seen slots).clocked = true from clocked), declared]

theorem IsPort.resolveOperand {word : List Char} (port : IsPort word) (declaration : Declaration) :
    resolveOperand word declaration =
      match declaration.inputs.idxOf? (String.ofList word) with
      | some index => .ok (.input index, declaration)
      | none =>
        match declaration.outputs.idxOf? (String.ofList word) with
        | some index => .ok (.output index, declaration)
        | none => .error (.unknownVariable (String.ofList word)) := by
  rw [Source.resolveOperand, port.flipflopNumber?]
  rfl

theorem readBodyWord_flipflopName (number : UInt16) {index : Nat} {before after : Declaration}
    (mentioned : mentionFlipflop number before = .ok (index, after)) :
    readBodyWord (flipflopName number).toList before =
      .ok ⟨.equals (.flipflop index), after⟩ := by
  obtain ⟨digits, spelled, _⟩ := toList_flipflopName number
  have closes : (flipflopName number).toList ≠ "endmodule".toList := by simp [spelled]
  have assigns : (flipflopName number).toList ≠ "assign".toList := by simp [spelled]
  rw [readBodyWord, if_neg closes, if_neg assigns, flipflopNumber?_flipflopName]
  simp only [bind, Except.bind, mentioned]
  rfl

section

variable (tidy : header.Tidy)
include tidy

/-- The word for a flip-flop is a number by which it is found or added. -/
theorem mentionFlipflop_word {index : Nat} (declared : header.Declares (.flipflop index)) :
    ∃ number, header.word (.flipflop index) = (flipflopName number).toList ∧
      ∀ slots assignments, header.InOrder (slots ++ [index]) →
        mentionFlipflop number ⟨header.seen slots, assignments⟩ =
          .ok (index, ⟨header.seen (slots ++ [index]), assignments⟩) := by
  obtain ⟨number, found, spelled⟩ := Header.exists_word_flipflop declared
  have clocked : header.clocked = true := tidy.clocked.resolve_right fun empty => by
    simp [empty] at found
  refine ⟨number, spelled, ?_⟩
  intro slots assignments order
  exact mentionFlipflop_seen tidy.flipflops_distinct clocked found order assignments

theorem idxOf?_inputs_word {index : Nat} (declared : header.Declares (.input index)) :
    header.inputs.idxOf? (String.ofList (header.word (.input index))) = some index := by
  have found : header.inputs[index]? = some header.inputs[index] :=
    List.getElem?_eq_getElem declared
  rw [Header.word, Header.signalName?, found, Option.getD_some, String.ofList_toList]
  exact idxOf?_eq_some_of_nodup (List.nodup_append.mp tidy.ports_distinct).1 found

theorem idxOf?_outputs_word {index : Nat} (declared : header.Declares (.output index)) :
    header.inputs.idxOf? (String.ofList (header.word (.output index))) = none ∧
      header.outputs.idxOf? (String.ofList (header.word (.output index))) = some index := by
  obtain ⟨_, outputs, apart⟩ := List.nodup_append.mp tidy.ports_distinct
  have found : header.outputs[index]? = some header.outputs[index] :=
    List.getElem?_eq_getElem declared
  rw [Header.word, Header.signalName?, found, Option.getD_some, String.ofList_toList]
  refine ⟨List.idxOf?_eq_none_iff.mpr ?_, idxOf?_eq_some_of_nodup outputs found⟩
  exact fun member => apart _ member _ (List.getElem_mem declared) rfl

end

section

variable (tidy : header.Tidy) (ports : ∀ name ∈ header.inputs ++ header.outputs, IsPort name.toList)
include tidy ports

theorem resolveOperand_seen {slots : List Nat} {signal : Signal} (declared : header.Declares signal)
    (order : header.InOrder (slots ++ signal.slots)) (assignments : List Assignment) :
    resolveOperand (header.word signal) ⟨header.seen slots, assignments⟩ =
      .ok (signal, ⟨header.seen (slots ++ signal.slots), assignments⟩) := by
  cases signal with
  | input index =>
      have place := idxOf?_inputs_word tidy declared
      have port := Header.isPort_word ports declared (by simp)
      rw [port.resolveOperand]
      simp [Header.seen, place, Signal.slots]
  | output index =>
      obtain ⟨absent, place⟩ := idxOf?_outputs_word tidy declared
      have port := Header.isPort_word ports declared (by simp)
      rw [port.resolveOperand]
      simp [Header.seen, absent, place, Signal.slots]
  | flipflop index =>
      obtain ⟨number, spelled, mentioned⟩ := mentionFlipflop_word tidy declared
      rw [spelled, resolveOperand, flipflopNumber?_flipflopName]
      simp only [bind, Except.bind, mentioned slots assignments order]
      rfl

theorem resolveItems_seen {slots : List Nat} {tokens : List Token}
    (declared : ∀ signal, .signal signal ∈ tokens → header.Declares signal)
    (order : header.InOrder (slots ++ (tokens.filterMap Token.signal?).flatMap Signal.slots))
    (assignments : List Assignment) :
    resolveItems (tokens.map header.item) ⟨header.seen slots, assignments⟩ =
      .ok (tokens, ⟨header.seen (slots ++ (tokens.filterMap Token.signal?).flatMap Signal.slots),
        assignments⟩) := by
  induction tokens generalizing slots with
  | nil => simp [resolveItems, pure, Except.pure]
  | cons token rest ih =>
      have later := fun signal member => declared signal (List.mem_cons_of_mem _ member)
      cases token with
      | gate kind =>
          have others := ih later order
          simp only [List.map_cons, Header.item, resolveItems, others, bind, Except.bind]
          rfl
      | signal source =>
          have split : slots ++ ((Token.signal source :: rest).filterMap Token.signal?).flatMap
              Signal.slots =
              slots ++ source.slots ++ (rest.filterMap Token.signal?).flatMap Signal.slots := by
            simp [Token.signal?]
          rw [split] at order ⊢
          have first := resolveOperand_seen tidy ports (declared source (by simp)) order.front
            assignments
          have others := ih later order
          simp only [List.map_cons, Header.item, resolveItems, first, others, bind, Except.bind]
          rfl

/-- An equals sign and an expression give the assignment, and put all flip-flops in their places. -/
theorem readWords_equals {slots : List Nat} {assignment : Assignment}
    (covers : header.Covers assignment) (polish : Polish assignment.expression)
    (order : header.InOrder (slots ++ assignment.operands.flatMap Signal.slots))
    (layout : Layout) (assignments : List Assignment) :
    readWords (['='] :: layout.words (header.atoms assignment.expression))
        (.equals assignment.target) ⟨header.seen slots, assignments⟩ =
      .ok ⟨.body, ⟨header.seen (slots ++ assignment.operands.flatMap Signal.slots),
        assignments ++ [assignment]⟩⟩ := by
  have items := Header.itemsOfWords_layout ports polish covers.operands layout
  have resolved := resolveItems_seen tidy ports covers.operands order assignments
  simp only [readWords, addAssignment, items, resolved, bind, Except.bind]
  rfl

theorem readWords_assignmentLine {slots : List Nat} {assignment : Assignment}
    (covers : header.Covers assignment) (polish : Polish assignment.expression)
    (order : header.InOrder (slots ++ assignment.slots)) (layout : Layout)
    (assignments : List Assignment) :
    readWords (header.assignmentLine layout assignment) .body ⟨header.seen slots, assignments⟩ =
      .ok ⟨.body, ⟨header.seen (slots ++ assignment.slots), assignments ++ [assignment]⟩⟩ := by
  obtain ⟨target, expression⟩ := assignment
  cases target with
  | output index =>
      have place := (idxOf?_outputs_word tidy covers.target).2
      have equals := readWords_equals tidy ports covers polish order layout assignments
      have line : readWords (header.assignmentLine layout ⟨.output index, expression⟩) .body
          ⟨header.seen slots, assignments⟩ =
          readWords (header.word (.output index) :: ['='] ::
            layout.words (header.atoms expression)) .target ⟨header.seen slots, assignments⟩ := rfl
      have target : (header.seen slots).outputs.idxOf?
          (String.ofList (header.word (.output index))) = some index := place
      rw [line, readWords, target]
      exact equals
  | flipflop index =>
      obtain ⟨number, spelled, mentioned⟩ := mentionFlipflop_word tidy covers.target
      have split : slots ++ Assignment.slots ⟨.flipflop index, expression⟩ = slots ++ [index] ++
          (Assignment.operands ⟨.flipflop index, expression⟩).flatMap Signal.slots := by
        simp [Assignment.slots, Target.signal, Signal.slots]
      rw [split] at order ⊢
      have equals := readWords_equals tidy ports covers polish order layout assignments
      have target := readBodyWord_flipflopName number (mentioned slots assignments order.front)
      have line : header.assignmentLine layout ⟨.flipflop index, expression⟩ =
          header.word (.flipflop index) :: ['='] :: layout.words (header.atoms expression) := rfl
      rw [line, spelled, readWords, target]
      exact equals

end

structure Legible (words : List (List Char)) : Prop where
  valid : ∀ word ∈ words, IsWord word
  begins : ∃ c front rest, words = (c :: front) :: rest ∧ c ≠ '/'

namespace Legible

variable {words : List (List Char)}

theorem isComment (legible : Legible words) :
    isComment (unwords words) = false ∧ isComment (unwords (indented words)) = false := by
  obtain ⟨c, front, rest, rfl, other⟩ := legible.begins
  obtain ⟨tail, same⟩ : ∃ tail, unwords ((c :: front) :: rest) = c :: tail := by
    cases rest with
    | nil => exact ⟨front, rfl⟩
    | cons next more => exact ⟨front ++ ' ' :: unwords (next :: more), rfl⟩
  have visible : Text.isBlank c = false :=
    (legible.valid (c :: front) (by simp)).unbroken c (by simp)
  have plain : Source.isComment (unwords ((c :: front) :: rest)) = false := by
    simp [same, Source.isComment, visible, List.isPrefixOf, other.symm]
  exact ⟨plain, plain⟩

theorem words_eq (legible : Legible words) :
    Text.words (unwords words) = words ∧ Text.words (unwords (indented words)) = words := by
  have separate : ∀ word ∈ words, ∀ c ∈ word, Text.isSeparator c = false :=
    fun word member c inside =>
      isSeparator_of_isBlank ((legible.valid word member).unbroken c inside)
  have kept : words.filter (!·.isEmpty) = words :=
    List.filter_eq_self.mpr fun word member => by simp [(legible.valid word member).nonempty]
  refine ⟨(words_unwords separate).trans kept, ?_⟩
  rw [words_unwords (by simpa [indented] using separate)]
  exact kept

theorem readLine (legible : Legible words) (reader : Reader) :
    reader.readLine (unwords words) = readWords words reader.phase reader.declaration ∧
      reader.readLine (unwords (indented words)) =
        readWords words reader.phase reader.declaration := by
  constructor
  · rw [Reader.readLine, legible.isComment.1, legible.words_eq.1]
    rfl
  · rw [Reader.readLine, legible.isComment.2, legible.words_eq.2]
    rfl

end Legible

theorem legible_cons {word : List Char} {rest : List (List Char)} (valid : IsWord word)
    (other : word.head? ≠ some '/') (others : ∀ word ∈ rest, IsWord word) :
    Legible (word :: rest) := by
  obtain ⟨c, front, rfl⟩ := List.exists_cons_of_ne_nil valid.nonempty
  exact ⟨List.forall_mem_cons.mpr ⟨valid, others⟩, c, front, rest, rfl, by simpa using other⟩

structure Reads (lines : List (List (List Char))) (before after : Reader) : Prop where
  unbroken : ∀ words ∈ lines, ∀ word ∈ words, ∀ c ∈ word, Text.isBlank c = false
  read : lines.foldlM (fun (reader : Reader) words => reader.readLine (unwords words)) before =
    .ok after

namespace Reads

variable {before middle after : Reader} {words : List (List Char)}
  {lines more : List (List (List Char))}

theorem line (legible : Legible words)
    (read : readWords words before.phase before.declaration = .ok after) :
    Reads [words] before after := by
  refine ⟨by simpa using fun word member => (legible.valid word member).unbroken, ?_⟩
  rw [List.foldlM_cons, (legible.readLine before).1, read]
  rfl

theorem indentedLine (legible : Legible words)
    (read : readWords words before.phase before.declaration = .ok after) :
    Reads [indented words] before after := by
  refine ⟨by simpa [indented] using fun word member => (legible.valid word member).unbroken, ?_⟩
  rw [List.foldlM_cons, (legible.readLine before).2, read]
  rfl

theorem nil (reader : Reader) : Reads [] reader reader := ⟨by simp, rfl⟩

theorem append (front : Reads lines before middle) (back : Reads more middle after) :
    Reads (lines ++ more) before after := by
  refine ⟨?_, ?_⟩
  · intro words member
    exact (List.mem_append.mp member).elim (front.unbroken words) (back.unbroken words)
  · rw [List.foldlM_append, front.read]
    exact back.read

theorem readLines (reads : Reads lines before after) (number : Nat) :
    Reader.readLines number (Text.lines (unlines (lines.map unwords))) before = .ok after := by
  have whole : Text.lines (unlines (lines.map unwords)) = lines.map unwords := by
    refine lines_unlines fun line member c inside => ?_
    obtain ⟨words, written, rfl⟩ := List.mem_map.mp member
    rcases mem_unwords inside with rfl | ⟨word, present, within⟩
    · decide
    · have visible := reads.unbroken words written word present c within
      constructor <;> rintro rfl <;> exact absurd visible (by decide)
  rw [whole]
  have read := reads.read
  clear whole reads
  induction lines generalizing before number with
  | nil =>
      cases read
      rfl
  | cons words rest ih =>
      rw [List.foldlM_cons] at read
      obtain ⟨middle, first, later⟩ := exists_of_bind_eq_ok read
      simp only [List.map_cons, Reader.readLines, first]
      exact ih (number + 1) later

end Reads

section

variable (direction : Direction) {declaration : Declaration}

theorem dropTrailing_eq_self {c : Char} {word : List Char} (other : word.getLast? ≠ some c) :
    Words.dropTrailing c word = word := by
  rw [← List.head?_reverse] at other
  have kept : word.reverse.dropWhile (· = c) = word.reverse := by
    cases reversed : word.reverse with
    | nil => rfl
    | cons last front =>
        rw [reversed] at other
        have apart : last ≠ c := by simpa using other
        simp [apart]
  rw [Words.dropTrailing, kept, List.reverse_reverse]

theorem dropTrailing_append (c : Char) (word : List Char) :
    Words.dropTrailing c (word ++ [c]) = Words.dropTrailing c word := by
  simp [Words.dropTrailing]

def addPins (direction : Direction) (names : List String) (declaration : Declaration) :
    Declaration :=
  match direction with
  | .input => { declaration with inputs := declaration.inputs ++ names }
  | .output => { declaration with outputs := declaration.outputs ++ names }

theorem declarePin_eq {word : List Char} {name : String}
    (spelled : Words.dropTrailing ',' word = name.toList) (named : name ≠ "")
    (fresh : name ∉ declaration.inputs ++ declaration.outputs) :
    declarePin direction word declaration = .ok (addPins direction [name] declaration) := by
  simp only [List.mem_append, not_or] at fresh
  simp only [declarePin, spelled, String.ofList_toList]
  cases direction <;> simp [named, fresh, addPins]

theorem listed_cons (name : String) (rest : List String) :
    ∃ word, listed (name :: rest) = word :: listed rest ∧
      (word = name.toList ∨ word = name.toList ++ [',']) := by
  cases rest with
  | nil => exact ⟨name.toList, rfl, Or.inl rfl⟩
  | cons next more => exact ⟨name.toList ++ [','], rfl, Or.inr rfl⟩

theorem isWord_listed {names : List String} (ports : ∀ name ∈ names, IsPort name.toList) :
    ∀ word ∈ listed names, IsWord word := by
  induction names with
  | nil => simp [listed]
  | cons name rest ih =>
      obtain ⟨port, others⟩ := List.forall_mem_cons.mp ports
      obtain ⟨word, same, spelled⟩ := listed_cons name rest
      rw [same]
      refine List.forall_mem_cons.mpr ⟨?_, ih others⟩
      rcases spelled with rfl | rfl
      · exact port.toIsWord
      · refine ⟨by simp, fun c member => ?_⟩
        rcases List.mem_append.mp member with inside | comma
        · exact port.unbroken c inside
        · rw [List.mem_singleton.mp comma]
          rfl

theorem declarePins_listed {names : List String} (ports : ∀ name ∈ names, IsPort name.toList)
    (distinct : names.Nodup)
    (fresh : ∀ name ∈ names, name ∉ declaration.inputs ++ declaration.outputs) :
    declarePins direction (listed names) declaration =
      .ok (addPins direction names declaration) := by
  induction names generalizing declaration with
  | nil => cases direction <;> simp [listed, declarePins, addPins, pure, Except.pure]
  | cons name rest ih =>
      obtain ⟨port, others⟩ := List.forall_mem_cons.mp ports
      obtain ⟨once, distinct⟩ := List.nodup_cons.mp distinct
      obtain ⟨here, later⟩ := List.forall_mem_cons.mp fresh
      obtain ⟨word, same, spelled⟩ := listed_cons name rest
      have kept : Words.dropTrailing ',' word = name.toList := by
        rcases spelled with rfl | rfl
        · exact dropTrailing_eq_self port.unlisted
        · rw [dropTrailing_append, dropTrailing_eq_self port.unlisted]
      have named : name ≠ "" := fun empty => port.nonempty (by simp [empty])
      have first := declarePin_eq direction kept named here
      have more : declarePins direction (listed rest) (addPins direction [name] declaration) =
          .ok (addPins direction rest (addPins direction [name] declaration)) := by
        refine ih others distinct fun other member => ?_
        have apart : other ≠ name := fun equal => once (equal ▸ member)
        have old := later other member
        cases direction <;> simp_all [addPins]
      rw [same, declarePins, first]
      simp only [bind, Except.bind, more]
      cases direction <;> simp [addPins]

theorem reads_pins {names : List String} (ports : ∀ name ∈ names, IsPort name.toList)
    (distinct : names.Nodup) (declaration : Declaration)
    (fresh : ∀ name ∈ names, name ∉ declaration.inputs ++ declaration.outputs) :
    Reads [indented (direction.keyword :: listed names)] ⟨.pins, declaration⟩
      ⟨.pins, addPins direction names declaration⟩ := by
  have declared := declarePins_listed direction ports distinct fresh
  have read : readWords (direction.keyword :: listed names) .pins declaration =
      (declarePins direction (listed names) declaration).map (⟨.pins, ·⟩) := by
    cases direction <;> rfl
  rw [declared] at read
  refine .indentedLine (legible_cons ?_ ?_ (isWord_listed ports)) read
  · cases direction <;> decide
  · cases direction <;> decide

end

section

variable (ports : ∀ name ∈ header.inputs ++ header.outputs, IsPort name.toList)
include ports

theorem reads_header (named : IsWord header.name.toList)
    (unopened : header.name.toList.getLast? ≠ some '(')
    (distinct : (header.inputs ++ header.outputs).Nodup) :
    Reads header.lines .start ⟨.body, ⟨header.seen [], []⟩⟩ := by
  obtain ⟨inputs, outputs, apart⟩ := List.nodup_append.mp distinct
  obtain ⟨inputPorts, outputPorts⟩ := List.forall_mem_append.mp ports
  have module : Reads [["module".toList, header.name.toList, ['(']]] .start
      ⟨.pins, ⟨⟨header.name, false, [], [], []⟩, []⟩⟩ := by
    refine .line (legible_cons (by decide) (by decide) ?_) ?_
    · have bracket : IsWord ['('] := by decide
      simp [named, bracket]
    · have kept : String.ofList (Words.dropTrailing '(' header.name.toList) = header.name := by
        rw [dropTrailing_eq_self unopened, String.ofList_toList]
      have read : readWords ["module".toList, header.name.toList, ['(']] .outside .empty =
          .ok ⟨.pins, ⟨⟨String.ofList (Words.dropTrailing '(' header.name.toList), false, [], [],
            []⟩, []⟩⟩ := rfl
      rw [kept] at read
      exact read
  have clock : Reads (if header.clocked then [indented ["clk".toList]] else [])
      ⟨.pins, ⟨⟨header.name, false, [], [], []⟩, []⟩⟩
      ⟨.pins, ⟨⟨header.name, header.clocked, [], [], []⟩, []⟩⟩ := by
    cases header.clocked with
    | false => exact .nil _
    | true => exact .indentedLine (legible_cons (by decide) (by decide) (by simp)) rfl
  have input := reads_pins .input inputPorts inputs
    ⟨⟨header.name, header.clocked, [], [], []⟩, []⟩ (by simp)
  have output := reads_pins .output outputPorts outputs
    ⟨⟨header.name, header.clocked, header.inputs, [], []⟩, []⟩ fun name member => by
      simpa using fun other => apart name other name member rfl
  have close : Reads [[");".toList]]
      ⟨.pins, ⟨⟨header.name, header.clocked, header.inputs, [], header.outputs⟩, []⟩⟩
      ⟨.body, ⟨header.seen [], []⟩⟩ :=
    .line (legible_cons (by decide) (by decide) (by simp)) rfl
  exact module.append (clock.append (input.append (output.append close)))

theorem legible_assignmentLine {assignment : Assignment} (covers : header.Covers assignment)
    (polish : Polish assignment.expression) (layout : Layout) :
    Legible (header.assignmentLine layout assignment) := by
  obtain ⟨target, expression⟩ := assignment
  have named := Header.isWord_word ports covers.target
  have equals : IsWord ['='] := by decide
  have body := Header.isWord_layout ports polish covers.operands layout
  cases target with
  | output index =>
      exact legible_cons (by decide) (by decide)
        (List.forall_mem_cons.mpr ⟨named, List.forall_mem_cons.mpr ⟨equals, body⟩⟩)
  | flipflop index =>
      refine legible_cons named ?_ (List.forall_mem_cons.mpr ⟨equals, body⟩)
      obtain ⟨number, _, spelled⟩ := Header.exists_word_flipflop covers.target
      obtain ⟨digits, begins, _⟩ := toList_flipflopName number
      simp [Target.signal, spelled, begins]

end

theorem reads_assignments (tidy : header.Tidy)
    (ports : ∀ name ∈ header.inputs ++ header.outputs, IsPort name.toList) (layout : Layout)
    {slots : List Nat} {assignments : List Assignment}
    (covers : ∀ assignment ∈ assignments, header.Covers assignment)
    (polish : ∀ assignment ∈ assignments, Polish assignment.expression)
    (order : header.InOrder (slots ++ assignments.flatMap Assignment.slots))
    (earlier : List Assignment) :
    Reads (assignments.map (header.assignmentLine layout))
      ⟨.body, ⟨header.seen slots, earlier⟩⟩
      ⟨.body, ⟨header.seen (slots ++ assignments.flatMap Assignment.slots),
        earlier ++ assignments⟩⟩ := by
  induction assignments generalizing slots earlier with
  | nil =>
      rw [List.flatMap_nil, List.append_nil, List.append_nil]
      exact .nil _
  | cons assignment rest ih =>
      obtain ⟨hereCovers, laterCovers⟩ := List.forall_mem_cons.mp covers
      obtain ⟨herePolish, laterPolish⟩ := List.forall_mem_cons.mp polish
      have split : slots ++ (assignment :: rest).flatMap Assignment.slots =
          slots ++ assignment.slots ++ rest.flatMap Assignment.slots := by simp
      rw [split] at order ⊢
      have first : Reads [header.assignmentLine layout assignment]
          ⟨.body, ⟨header.seen slots, earlier⟩⟩
          ⟨.body, ⟨header.seen (slots ++ assignment.slots), earlier ++ [assignment]⟩⟩ :=
        .line (legible_assignmentLine ports hereCovers herePolish layout)
          (readWords_assignmentLine tidy ports hereCovers herePolish order.front layout earlier)
      have later := ih laterCovers laterPolish order (earlier ++ [assignment])
      rw [List.append_assoc earlier] at later
      exact first.append later

/-- Whatever the layout of its expressions, the text of a declaration is read as the declaration. -/
theorem readDeclaration_text (layout : Layout) {declaration : Declaration}
    (writable : Writable declaration) :
    readDeclaration (declaration.text layout) = .ok declaration := by
  have order : declaration.InOrder ([] ++ declaration.slots) := by
    rw [List.nil_append, Header.InOrder, writable.numbered]
  have whole : declaration.seen ([] ++ declaration.slots) = declaration.toHeader := by
    rw [List.nil_append, Header.seen, writable.numbered, List.length_range, List.take_length]
  have header := reads_header writable.ports writable.name_word writable.name_unopened
    writable.tidy.ports_distinct
  have body : Reads (declaration.assignments.map (declaration.assignmentLine layout))
      ⟨.body, ⟨declaration.seen [], []⟩⟩
      ⟨.body, ⟨declaration.seen ([] ++ declaration.slots), [] ++ declaration.assignments⟩⟩ :=
    reads_assignments writable.tidy writable.ports layout writable.covers writable.polish order []
  rw [whole, List.nil_append] at body
  have close : Reads [["endmodule".toList]] ⟨.body, declaration⟩ ⟨.outside, declaration⟩ :=
    .line (legible_cons (by decide) (by decide) (by simp)) rfl
  have read := (header.append (body.append close)).readLines 1
  have written : (declaration.text layout).toList =
      unlines ((declaration.lines layout).map unwords) := String.toList_ofList
  rw [readDeclaration, written, Declaration.lines, read]
  rfl

def toggle : Declaration where
  name := "Toggle"
  clocked := true
  inputs := ["clk", "FF"]
  flipflops := [12, 0]
  outputs := ["assign", "a,b"]
  assignments := [
    ⟨.flipflop 0, [.signal (.input 0), .signal (.flipflop 1), .gate (.binary .xor), .gate .not]⟩,
    ⟨.output 1, [.signal (.output 0), .gate .not, .signal (.flipflop 0), .gate (.binary .nor)]⟩,
    ⟨.output 0, [.signal (.input 1)]⟩]

theorem readDeclaration_text_toggle :
    toggle.text .joined = "module Toggle (\n  clk\n  input clk, FF\n  output assign, a,b\n);\n" ++
        "FF12 = (NOT (clk XOR FF0))\nassign a,b = ((NOT assign) NOR FF12)\n" ++
        "assign assign = FF\nendmodule\n" ∧
      readDeclaration (toggle.text .joined) = .ok toggle ∧
      readDeclaration (toggle.text .spaced) = .ok toggle := by
  have tidy : toggle.Tidy := ⟨by decide, by decide, by decide, by decide⟩
  have covers : ∀ assignment ∈ toggle.assignments, toggle.Covers assignment := by
    simp only [toggle, List.forall_mem_cons]
    refine ⟨⟨?_, ?_⟩, ⟨?_, ?_⟩, ⟨?_, ?_⟩, by simp⟩ <;> simp [Header.Declares, Target.signal]
  have writable : Writable toggle :=
    ⟨⟨tidy, covers⟩, by decide, by decide, by decide, by decide, by decide⟩
  exact ⟨by decide +kernel, readDeclaration_text .joined writable,
    readDeclaration_text .spaced writable⟩

end Source

end GateLevel
