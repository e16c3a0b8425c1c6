import GateLevel.Source.Expression
import GateLevel.Text
import Mathlib.Data.List.Basic

/-! The grammar of expressions, the ways of writing a sentence of it in words, and what reading
such words makes of it. -/

namespace GateLevel.Source

inductive Term
  | operand (name : List Char)
  | not (inner : Term)
  | binary (gate : BinaryGate) (first last : Term)
  deriving DecidableEq, Repr

def Term.items : Term → List Item
  | operand name => [.operand name]
  | not inner => inner.items ++ [.gate .not]
  | binary gate first last => first.items ++ last.items ++ [.gate (.binary gate)]

structure IsOperand (word : List Char) : Prop where
  nonempty : word ≠ []
  unbroken : ∀ c ∈ word, Text.isSeparator c = false
  no_mnemonic : ∀ gate : Gate, gate.mnemonic.toList ≠ word
  unopened : word.head? ≠ some '('
  unclosed : word.getLast? ≠ some ')'

inductive Rank
  | factor
  | chain
  deriving DecidableEq, Repr

/-- The sentences of either rank, each with what it says. A factor is an operand, an inverted
factor, or a chain in parentheses; a chain is a factor, or a chain with one more factor behind a
gate. -/
inductive Phrase : Rank → List Atom → Term → Prop
  | operand {name} : IsOperand name → Phrase .factor [.operand name] (.operand name)
  | not {atoms term} : Phrase .factor atoms term → Phrase .factor (.gate .not :: atoms) (.not term)
  | group {atoms term} : Phrase .chain atoms term →
      Phrase .factor (.opening :: (atoms ++ [.closing])) term
  | factor {atoms term} : Phrase .factor atoms term → Phrase .chain atoms term
  | binary {front back first last} (gate : BinaryGate) : Phrase .chain front first →
      Phrase .factor back last →
      Phrase .chain (front ++ .gate (.binary gate) :: back) (.binary gate first last)

namespace Atom

def word : Atom → List Char
  | opening => ['(']
  | closing => [')']
  | gate kind => kind.mnemonic.toList
  | operand name => name

def Plain : Atom → Prop
  | operand name => IsOperand name
  | _ => True

end Atom

/-- Words that write the atoms. An opening parenthesis may be joined to what follows it, and a
closing one to what precedes it. -/
inductive Spells : List Atom → List (List Char) → Prop
  | nil : Spells [] []
  | apart (atom : Atom) {rest words} :
    Spells rest words → Spells (atom :: rest) (atom.word :: words)
  | joined {atom next : Atom} {rest word words} : atom = .opening ∨ next = .closing →
      Spells (next :: rest) (word :: words) →
      Spells (atom :: next :: rest) ((atom.word ++ word) :: words)

theorem Phrase.plain {rank : Rank} {atoms : List Atom} {term : Term}
    (phrase : Phrase rank atoms term) : ∀ atom ∈ atoms, atom.Plain := by
  induction phrase with
  | operand valid => simpa [Atom.Plain] using valid
  | not _ ih => simpa [Atom.Plain] using ih
  | group _ ih =>
      intro atom member
      simp only [List.mem_cons, List.mem_append, List.not_mem_nil, or_false] at member
      rcases member with rfl | inside | rfl
      · trivial
      · exact ih atom inside
      · trivial
  | factor _ ih => exact ih
  | binary gate _ _ frontIh backIh =>
      intro atom member
      simp only [List.mem_append, List.mem_cons] at member
      rcases member with inside | rfl | inside
      · exact frontIh atom inside
      · trivial
      · exact backIh atom inside

theorem peelEnd_replicate {core : List Char} (nonempty : core ≠ []) (count : Nat) :
    peelEnd (List.replicate count ')' ++ core) = peelEnd core ++ List.replicate count [')'] := by
  induction count with
  | zero => simp
  | succ count ih =>
      obtain ⟨c, front, split⟩ : ∃ c front, List.replicate count ')' ++ core = c :: front :=
        List.exists_cons_of_ne_nil (by simp [nonempty])
      rw [List.replicate_succ, List.cons_append, split, peelEnd, ← split, ih, List.append_assoc,
        ← List.replicate_succ']

namespace Atom

variable {atom : Atom}

theorem ofWord_word (plain : atom.Plain) : ofWord atom.word = atom := by
  cases atom with
  | opening => rfl
  | closing => rfl
  | gate kind =>
      have long := kind.one_lt_length_mnemonic
      have differs : ∀ c, kind.mnemonic.toList ≠ [c] := by
        intro c same
        simp [same] at long
      simp [ofWord, word, differs, Gate.ofMnemonic?_mnemonic]
  | operand name =>
      have unopened : name ≠ ['('] := fun same => plain.unopened (by simp [same])
      have unclosed : name ≠ [')'] := fun same => plain.unclosed (by simp [same])
      have unnamed : Gate.ofMnemonic? (String.ofList name) = none := by
        simp only [Gate.ofMnemonic?, List.find?_eq_none, beq_iff_eq]
        intro gate _ same
        exact plain.no_mnemonic gate (by simp [same])
      simp [ofWord, word, unopened, unclosed, unnamed]

theorem word_ne_nil (plain : atom.Plain) : atom.word ≠ [] := by
  cases atom with
  | opening => simp [word]
  | closing => simp [word]
  | gate kind => exact List.ne_nil_of_length_pos (Nat.lt_of_succ_lt kind.one_lt_length_mnemonic)
  | operand name => exact plain.nonempty

theorem head?_word (plain : atom.Plain) (other : atom ≠ .opening) :
    atom.word.head? ≠ some '(' := by
  cases atom with
  | opening => simp at other
  | closing => simp [word]
  | gate kind =>
      intro opened
      have capital := Gate.capital_of_mem_mnemonic (List.mem_of_head? opened)
      exact absurd capital (by decide)
  | operand name => exact plain.unopened

theorem getLast?_word (plain : atom.Plain) (other : atom ≠ .closing) :
    atom.word.getLast? ≠ some ')' := by
  cases atom with
  | opening => simp [word]
  | closing => simp at other
  | gate kind =>
      intro closed
      have capital := Gate.capital_of_mem_mnemonic (List.mem_of_getLast? closed)
      exact absurd capital (by decide)
  | operand name => exact plain.unclosed

theorem peelEnd_word (plain : atom.Plain) : peelEnd atom.word.reverse = [atom.word] := by
  by_cases closing : atom = .closing
  · subst closing
    rfl
  · have unclosed := getLast?_word plain closing
    rw [← List.head?_reverse] at unclosed
    rw [peelEnd, List.reverse_reverse]
    intro c front same
    simp [same] at unclosed

/-- A word keeps together, apart from the closing parentheses joined to its end. -/
theorem peel_word_append (plain : atom.Plain) (other : atom ≠ .opening) (count : Nat) :
    peel (atom.word ++ List.replicate count ')') = atom.word :: List.replicate count [')'] := by
  have nonempty := word_ne_nil plain
  have reversed : atom.word.reverse ≠ [] := by simpa using nonempty
  rw [peel, List.reverse_append, List.reverse_replicate, peelEnd_replicate reversed,
    peelEnd_word plain, List.singleton_append]
  intro c rest same
  obtain ⟨first, others, split⟩ := List.exists_cons_of_ne_nil nonempty
  have head := head?_word plain other
  rw [split, List.cons_append, List.cons.injEq] at same
  simp [split, same.1] at head

theorem peel_word (plain : atom.Plain) : peel atom.word = [atom.word] := by
  by_cases opened : atom = .opening
  · subst opened
    rfl
  · simpa using peel_word_append plain opened 0

end Atom

namespace Spells

theorem closing_run {rest : List Atom} {word : List Char} {words : List (List Char)}
    (spells : Spells (.closing :: rest) (word :: words)) :
    ∃ count, word = List.replicate (count + 1) ')' := by
  induction rest generalizing word with
  | nil =>
      cases spells with
      | apart => exact ⟨0, rfl⟩
  | cons next rest ih =>
      cases spells with
      | apart => exact ⟨0, rfl⟩
      | joined side later =>
          obtain rfl : next = .closing := by simpa using side
          obtain ⟨count, same⟩ := ih later
          exact ⟨count + 1, by rw [same]; rfl⟩

theorem word_ne_nil {atom : Atom} {rest : List Atom} {word : List Char} {words : List (List Char)}
    (spells : Spells (atom :: rest) (word :: words)) (plain : atom.Plain) : word ≠ [] := by
  cases spells with
  | apart => exact atom.word_ne_nil plain
  | joined => simp [atom.word_ne_nil plain]

/-- Taking the parentheses off the words gives back the atoms, however they were joined. -/
theorem peel_words {atoms : List Atom} {words : List (List Char)} (spells : Spells atoms words)
    (plain : ∀ atom ∈ atoms, atom.Plain) : words.flatMap peel = atoms.map Atom.word := by
  induction spells with
  | nil => rfl
  | apart atom _ ih =>
      have first := atom.peel_word (plain atom (by simp))
      have later := ih fun other member => plain other (List.mem_cons_of_mem _ member)
      rw [List.flatMap_cons, first, later, List.singleton_append, List.map_cons]
  | @joined atom next rest word words side spells ih =>
      have here := plain atom (by simp)
      have there := plain next (by simp)
      have later := ih fun other member => plain other (List.mem_cons_of_mem _ member)
      have split : peel (atom.word ++ word) = atom.word :: peel word := by
        by_cases opened : atom = .opening
        · obtain ⟨c, back, same⟩ := List.exists_cons_of_ne_nil (spells.word_ne_nil there)
          subst opened
          rw [same]
          rfl
        · obtain rfl := side.resolve_left opened
          obtain ⟨count, rfl⟩ := spells.closing_run
          have closings := Atom.peel_word_append there (by simp) count
          rw [Atom.peel_word_append here opened, List.replicate_succ']
          simpa [Atom.word, List.replicate_succ, ← List.replicate_succ'] using closings.symm
      rw [List.flatMap_cons, split, List.cons_append, ← List.flatMap_cons, later]
      rfl

theorem atoms_eq {atoms : List Atom} {words : List (List Char)} (spells : Spells atoms words)
    (plain : ∀ atom ∈ atoms, atom.Plain) : (words.flatMap peel).map Atom.ofWord = atoms := by
  rw [spells.peel_words plain, List.map_map]
  conv_rhs => rw [← List.map_id atoms]
  apply List.map_congr_left
  intro atom member
  exact Atom.ofWord_word (plain atom member)

end Spells

namespace Pending

def Settled (pending : List Pending) : Prop := gates pending = [] ∧ beneath pending = pending

theorem gates_append (waiting : List Gate) (pending : List Pending) :
    gates (waiting.map .gate ++ pending) = waiting ++ gates pending := by
  induction waiting with
  | nil => rfl
  | cons gate rest ih => simp [gates, ih]

theorem beneath_append (waiting : List Gate) (pending : List Pending) :
    beneath (waiting.map .gate ++ pending) = beneath pending := by
  induction waiting with
  | nil => rfl
  | cons gate rest ih => simpa [beneath] using ih

theorem Settled.flushed {pending : List Pending} (settled : Settled pending)
    (waiting : List Gate) :
    flushed (waiting.map .gate ++ pending) = waiting.map .gate := by
  rw [Pending.flushed, gates_append, settled.1, List.append_nil]

theorem Settled.beneath {pending : List Pending} (settled : Settled pending)
    (waiting : List Gate) : Pending.beneath (waiting.map .gate ++ pending) = pending := by
  rw [beneath_append, settled.2]

end Pending

def Yields (atoms : List Atom) (pending : List Pending) (written : List Item)
    (waiting : List Gate) : Prop :=
  ∀ rest, arrange (atoms ++ rest) pending =
    (arrange rest (waiting.map .gate ++ pending)).map (written ++ ·)

namespace Yields

variable {atoms more : List Atom} {pending : List Pending} {written items : List Item}
  {waiting gates : List Gate}

theorem operand (name : List Char) (pending : List Pending) :
    Yields [.operand name] pending [.operand name] [] := fun _ => rfl

theorem not (yields : Yields atoms (.gate .not :: pending) written waiting) :
    Yields (.gate .not :: atoms) pending written (waiting ++ [.not]) := by
  intro rest
  simpa [arrange] using yields rest

theorem group (yields : Yields atoms (.opening :: pending) written waiting) :
    Yields (.opening :: (atoms ++ [.closing])) pending (written ++ waiting.map .gate) [] := by
  intro rest
  have opened : Pending.Settled (.opening :: pending) := ⟨rfl, rfl⟩
  have read := yields (.closing :: rest)
  simp only [arrange, opened.beneath, opened.flushed, Option.map_map] at read
  simpa [arrange, Function.comp_def, List.append_assoc] using read

/-- A gate with two operands makes all gates above the innermost parenthesis act first. -/
theorem binary (settled : Pending.Settled pending) (front : Yields atoms pending written waiting)
    (gate : BinaryGate) (back : Yields more (.gate (.binary gate) :: pending) items gates) :
    Yields (atoms ++ .gate (.binary gate) :: more) pending (written ++ waiting.map .gate ++ items)
      (gates ++ [.binary gate]) := by
  intro rest
  have read := front (.gate (.binary gate) :: (more ++ rest))
  rw [arrange, settled.beneath, settled.flushed, back rest] at read
  simpa [Function.comp_def, List.append_assoc] using read

theorem arrange_eq (yields : Yields atoms [] written waiting) :
    arrange atoms [] = some (written ++ waiting.map .gate) := by
  have settled : Pending.Settled [] := ⟨rfl, rfl⟩
  have read := yields []
  rw [List.append_nil, arrange, settled.beneath, settled.flushed] at read
  exact read

end Yields

/-- What has been written of a phrase, and the gates that still wait, make up its reverse Polish
order. A chain has to begin where no gate waits, as its own gates would make that gate act. -/
theorem Phrase.exists_yields {rank : Rank} {atoms : List Atom} {term : Term}
    (phrase : Phrase rank atoms term) :
    ∃ written waiting, written ++ waiting.map Item.gate = term.items ∧
      ∀ pending, (rank = .chain → Pending.Settled pending) →
        Yields atoms pending written waiting := by
  induction phrase with
  | @operand name valid =>
      exact ⟨[.operand name], [], rfl, fun pending _ => .operand name pending⟩
  | not _ ih =>
      obtain ⟨written, waiting, whole, yields⟩ := ih
      refine ⟨written, waiting ++ [.not], by simp [Term.items, ← whole], fun pending _ => ?_⟩
      exact (yields _ (by simp)).not
  | group _ ih =>
      obtain ⟨written, waiting, whole, yields⟩ := ih
      refine ⟨written ++ waiting.map .gate, [], by simp [whole], fun pending _ => ?_⟩
      exact (yields _ fun _ => ⟨rfl, rfl⟩).group
  | factor _ ih =>
      obtain ⟨written, waiting, whole, yields⟩ := ih
      exact ⟨written, waiting, whole, fun pending _ => yields pending (by simp)⟩
  | binary gate _ _ frontIh backIh =>
      obtain ⟨written, waiting, whole, front⟩ := frontIh
      obtain ⟨items, gates, other, back⟩ := backIh
      refine ⟨written ++ waiting.map .gate ++ items, gates ++ [.binary gate], ?_, ?_⟩
      · simp [Term.items, ← whole, ← other]
      · intro pending settled
        exact .binary (settled rfl) (front pending settled) gate (back _ (by simp))

theorem Phrase.arrange_eq {atoms : List Atom} {term : Term} (phrase : Phrase .chain atoms term) :
    arrange atoms [] = some term.items := by
  obtain ⟨written, waiting, whole, yields⟩ := phrase.exists_yields
  rw [(yields [] fun _ => ⟨rfl, rfl⟩).arrange_eq, whole]

/-- Every sentence, in whatever words, is read as the reverse Polish order of what it says. -/
theorem itemsOfWords_of_spells {atoms : List Atom} {words : List (List Char)} {term : Term}
    (sentence : Phrase .chain atoms term) (spells : Spells atoms words) :
    itemsOfWords words = some term.items := by
  rw [itemsOfWords, spells.atoms_eq sentence.plain, sentence.arrange_eq]

theorem isOperand_singleton {c : Char} (plain : c ∉ ['(', ')', ' ', '\t']) : IsOperand [c] := by
  simp only [List.mem_cons, List.not_mem_nil, or_false, not_or] at plain
  refine ⟨by simp, by simp [Text.isSeparator, plain], ?_, by simp [plain], by simp [plain]⟩
  intro gate same
  have long := gate.one_lt_length_mnemonic
  simp [same] at long

/-- Doubled and single parentheses, joined on both sides of a word, and inverters in a row. -/
theorem itemsOfWords_of_spells_nested :
    itemsOfWords (["NOT", "((a", "XOR", "b))", "NAND", "(NOT", "NOT", "c", "NOR", "(d))"].map
        String.toList) =
      some [.operand ['a'], .operand ['b'], .gate (.binary .xor), .gate .not, .operand ['c'],
        .gate .not, .gate .not, .operand ['d'], .gate (.binary .nor), .gate (.binary .nand)] := by
  have a : Phrase .factor [.operand ['a']] _ := .operand (isOperand_singleton (by decide))
  have b : Phrase .factor [.operand ['b']] _ := .operand (isOperand_singleton (by decide))
  have c : Phrase .factor [.operand ['c']] _ := .operand (isOperand_singleton (by decide))
  have d : Phrase .factor [.operand ['d']] _ := .operand (isOperand_singleton (by decide))
  have front := Phrase.factor (.not (.group (.factor (.group (a.factor.binary .xor b)))))
  have back := Phrase.group ((Phrase.factor (.not (.not c))).binary .nor (.group d.factor))
  refine itemsOfWords_of_spells (front.binary .nand back) ?_
  exact .apart (.gate .not) <| .joined (.inl rfl) <| .joined (.inl rfl) <|
    .apart (.operand ['a']) <|
    .apart (.gate (.binary .xor)) <| .joined (.inr rfl) <| .joined (.inr rfl) <| .apart .closing <|
    .apart (.gate (.binary .nand)) <| .joined (.inl rfl) <| .apart (.gate .not) <|
    .apart (.gate .not) <| .apart (.operand ['c']) <| .apart (.gate (.binary .nor)) <|
    .joined (.inl rfl) <| .joined (.inr rfl) <| .joined (.inr rfl) <| .apart .closing <| .nil

end GateLevel.Source
