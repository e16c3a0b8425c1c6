import GateLevel.Proofs.Formula
import GateLevel.Proofs.Source.Grammar
import GateLevel.Proofs.Source.Scope

/-! The text of a declaration, its expressions with a pair of parentheses around every gate, and
what a declaration must be like to have one. -/

namespace GateLevel

namespace Formula

def build : List Token → List Formula → Option (List Formula)
  | [], stack => some stack
  | .signal source :: rest, stack => build rest (.signal source :: stack)
  | .gate .not :: rest, operand :: stack => build rest (.not operand :: stack)
  | .gate (.binary gate) :: rest, last :: first :: stack =>
    build rest (.binary gate first last :: stack)
  | _, _ => none

def ofTokens? (tokens : List Token) : Option Formula :=
  match build tokens [] with
  | some [formula] => some formula
  | _ => none

theorem build_tokens (formula : Formula) (rest : List Token) (stack : List Formula) :
    build (formula.tokens ++ rest) stack = build rest (formula :: stack) := by
  induction formula generalizing rest stack with
  | signal source => rfl
  | not operand ih => simp [tokens, ih, build]
  | binary gate first last firstIh lastIh => simp [tokens, firstIh, lastIh, build]

theorem ofTokens?_tokens (formula : Formula) : ofTokens? formula.tokens = some formula := by
  have built := formula.build_tokens [] []
  rw [List.append_nil] at built
  rw [ofTokens?, built]
  rfl

end Formula

def Signal.slots : Signal → List Nat
  | .flipflop index => [index]
  | _ => []

def Assignment.slots (assignment : Assignment) : List Nat :=
  assignment.target.signal.slots ++ assignment.operands.flatMap Signal.slots

def Declaration.slots (declaration : Declaration) : List Nat :=
  declaration.assignments.flatMap Assignment.slots

namespace Source

structure IsWord (word : List Char) : Prop where
  nonempty : word ≠ []
  unbroken : ∀ c ∈ word, Text.isBlank c = false

/-- A word that can name a port and be told from anything else that a line can hold. -/
structure IsPort (word : List Char) : Prop extends IsWord word where
  unopened : word.head? ≠ some '('
  unclosed : word.getLast? ≠ some ')'
  unlisted : word.getLast? ≠ some ','
  no_mnemonic : ∀ gate : Gate, gate.mnemonic.toList ≠ word
  no_flipflop : ∀ digits, digits ≠ [] → digits.all Char.isDigit = true →
    word ≠ 'F' :: 'F' :: digits

theorem flipflopDigits?_eq_none_iff (word : List Char) :
    flipflopDigits? word = none ↔ ∀ digits, digits ≠ [] → digits.all Char.isDigit = true →
      word ≠ 'F' :: 'F' :: digits := by
  constructor
  · rintro none digits nonempty numeric rfl
    simp [flipflopDigits?, nonempty, numeric] at none
  · intro other
    simp only [flipflopDigits?]
    split
    · rename_i digits
      split
      · rename_i numeric
        simp only [Bool.and_eq_true, Bool.not_eq_true', List.isEmpty_eq_false_iff] at numeric
        exact absurd rfl (other digits numeric.1 numeric.2)
      · rfl
    · rfl

theorem isWord_iff (word : List Char) :
    IsWord word ↔ word ≠ [] ∧ word.all (!Text.isBlank ·) = true := by
  simp only [List.all_eq_true, Bool.not_eq_true']
  exact ⟨fun valid => ⟨valid.nonempty, valid.unbroken⟩, fun valid => ⟨valid.1, valid.2⟩⟩

instance : DecidablePred IsWord := fun word => decidable_of_iff _ (isWord_iff word).symm

theorem isPort_iff (word : List Char) :
    IsPort word ↔ IsWord word ∧ word.head? ≠ some '(' ∧ word.getLast? ≠ some ')' ∧
      word.getLast? ≠ some ',' ∧ (∀ gate ∈ Gate.all, gate.mnemonic.toList ≠ word) ∧
      flipflopDigits? word = none := by
  rw [flipflopDigits?_eq_none_iff]
  constructor
  · rintro ⟨valid, unopened, unclosed, unlisted, gates, flipflops⟩
    exact ⟨valid, unopened, unclosed, unlisted, fun gate _ => gates gate, flipflops⟩
  · rintro ⟨valid, unopened, unclosed, unlisted, gates, flipflops⟩
    exact ⟨valid, unopened, unclosed, unlisted, fun gate => gates gate gate.mem_all, flipflops⟩

instance : DecidablePred IsPort := fun word => decidable_of_iff _ (isPort_iff word).symm

/-- A declaration that can be written: its ports have names to write, its expressions are
well-formed, and its flip-flops stand in the order in which its assignments first mention them. -/
structure Writable (declaration : Declaration) : Prop extends declaration.Scoped where
  name_word : IsWord declaration.name.toList
  name_unopened : declaration.name.toList.getLast? ≠ some '('
  ports : ∀ name ∈ declaration.inputs ++ declaration.outputs, IsPort name.toList
  polish : ∀ assignment ∈ declaration.assignments, Polish assignment.expression
  numbered : declaration.slots.eraseDups = List.range declaration.flipflops.length

/-- A way of writing atoms in words. -/
structure Layout where
  words : List Atom → List (List Char)
  spells : ∀ atoms, Spells atoms (words atoms)

namespace Layout

def spaced : Layout where
  words atoms := atoms.map Atom.word
  spells atoms := by
    induction atoms with
    | nil => exact .nil
    | cons atom rest ih => exact .apart atom ih

def joinWords : List Atom → List (List Char)
  | [] => []
  | atom :: rest =>
    match rest, joinWords rest with
    | next :: _, word :: words =>
      if atom = .opening ∨ next = .closing then (atom.word ++ word) :: words
      else atom.word :: word :: words
    | _, words => atom.word :: words

theorem spells_joinWords (atoms : List Atom) : Spells atoms (joinWords atoms) := by
  induction atoms with
  | nil => exact .nil
  | cons atom rest ih =>
      simp only [joinWords]
      split
      · rename_i next later word words same
        rw [same] at ih
        split
        · rename_i side
          exact .joined side ih
        · exact .apart atom ih
      · exact .apart atom ih

def joined : Layout where
  words := joinWords
  spells := spells_joinWords

end Layout

def Term.atoms : Term → List Atom
  | operand name => [.operand name]
  | not inner => .opening :: (.gate .not :: inner.atoms ++ [.closing])
  | binary gate first last =>
    .opening :: (first.atoms ++ .gate (.binary gate) :: last.atoms ++ [.closing])

end Source

open Source

namespace Header

def word (header : Header) (signal : Signal) : List Char :=
  ((header.signalName? signal).getD "").toList

def term (header : Header) : Formula → Term
  | .signal source => .operand (header.word source)
  | .not operand => .not (header.term operand)
  | .binary gate first last => .binary gate (header.term first) (header.term last)

def item (header : Header) : Token → Item
  | .gate gate => .gate gate
  | .signal source => .operand (header.word source)

def atoms (header : Header) (expression : List Token) : List Atom :=
  match Formula.ofTokens? expression with
  | some formula => (header.term formula).atoms
  | none => []

end Header

namespace Source

def listed : List String → List (List Char)
  | [] => []
  | [name] => [name.toList]
  | name :: next :: rest => (name.toList ++ [',']) :: listed (next :: rest)

def indented (words : List (List Char)) : List (List Char) := [] :: [] :: words

end Source

namespace Header

def lines (header : Header) : List (List (List Char)) :=
  ["module".toList, header.name.toList, ['(']] ::
    ((if header.clocked then [indented ["clk".toList]] else []) ++
      [indented (Direction.input.keyword :: listed header.inputs),
        indented (Direction.output.keyword :: listed header.outputs), [");".toList]])

def assignmentLine (header : Header) (layout : Layout) (assignment : Assignment) :
    List (List Char) :=
  let body := header.word assignment.target.signal :: ['='] ::
    layout.words (header.atoms assignment.expression)
  match assignment.target with
  | .output _ => "assign".toList :: body
  | .flipflop _ => body

end Header

namespace Source

def unwords : List (List Char) → List Char
  | [] => []
  | [word] => word
  | word :: next :: rest => word ++ ' ' :: unwords (next :: rest)

def unlines (lines : List (List Char)) : List Char := lines.flatMap (· ++ ['\n'])

end Source

namespace Declaration

def lines (declaration : Declaration) (layout : Layout) : List (List (List Char)) :=
  declaration.toHeader.lines ++
    (declaration.assignments.map (declaration.assignmentLine layout) ++ [["endmodule".toList]])

def text (declaration : Declaration) (layout : Layout) : String :=
  String.ofList (unlines ((declaration.lines layout).map unwords))

end Declaration

namespace Source

section

variable {words : List (List Char)}

theorem isSeparator_of_isBlank {c : Char} (visible : Text.isBlank c = false) :
    Text.isSeparator c = false := by
  simp only [Text.isSeparator, Bool.or_eq_false_iff, decide_eq_false_iff_not]
  constructor <;> rintro rfl <;> exact absurd visible (by decide)

theorem words_unwords (unbroken : ∀ word ∈ words, ∀ c ∈ word, Text.isSeparator c = false) :
    Text.words (unwords words) = words.filter (!·.isEmpty) := by
  induction words with
  | nil => rfl
  | cons word rest ih =>
      have here := unbroken word (by simp)
      have later := ih fun other member => unbroken other (List.mem_cons_of_mem _ member)
      cases rest with
      | nil => rw [unwords, Text.words, List.splitOnP_eq_singleton here]
      | cons next others =>
          rw [Text.words] at later
          rw [unwords, Text.words, List.splitOnP_append_cons_of_forall_mem here ' ' rfl,
            List.filter_cons, later]
          simp only [List.filter_cons]

theorem mem_unwords {c : Char} (member : c ∈ unwords words) :
    c = ' ' ∨ ∃ word ∈ words, c ∈ word := by
  induction words with
  | nil => simp [unwords] at member
  | cons word rest ih =>
      cases rest with
      | nil => exact Or.inr ⟨word, by simp, member⟩
      | cons next others =>
          simp only [unwords, List.mem_append, List.mem_cons] at member
          rcases member with here | rfl | later
          · exact Or.inr ⟨word, by simp, here⟩
          · exact Or.inl rfl
          · exact (ih later).imp_right fun ⟨other, present, inside⟩ =>
              ⟨other, List.mem_cons_of_mem _ present, inside⟩

theorem lines_cons {line : List Char} (whole : ∀ c ∈ line, c ≠ '\n' ∧ c ≠ '\r')
    (rest : List Char) : Text.lines (line ++ '\n' :: rest) = line :: Text.lines rest := by
  induction line with
  | nil => simp [Text.lines, Text.linesBy]
  | cons c front ih =>
      have here := whole c (by simp)
      have later := ih fun other member => whole other (List.mem_cons_of_mem _ member)
      rw [Text.lines] at later
      simp [Text.lines, Text.linesBy, here, later]

theorem lines_unlines {lines : List (List Char)}
    (whole : ∀ line ∈ lines, ∀ c ∈ line, c ≠ '\n' ∧ c ≠ '\r') :
    Text.lines (unlines lines) = lines := by
  induction lines with
  | nil => rfl
  | cons line rest ih =>
      have later := ih fun other member => whole other (List.mem_cons_of_mem _ member)
      have first := lines_cons (whole line (by simp)) (unlines rest)
      rw [unlines, List.flatMap_cons, List.append_assoc, List.singleton_append]
      rw [unlines] at first later
      rw [first, later]

end

namespace IsPort

variable {word : List Char}

theorem isOperand (port : IsPort word) : IsOperand word :=
  ⟨port.nonempty, fun c member => isSeparator_of_isBlank (port.unbroken c member),
    port.no_mnemonic, port.unopened, port.unclosed⟩

theorem flipflopNumber? (port : IsPort word) : flipflopNumber? word = .ok none := by
  rw [Source.flipflopNumber?, (flipflopDigits?_eq_none_iff word).mpr port.no_flipflop]

end IsPort

section

variable (number : UInt16)

theorem toList_flipflopName : ∃ digits, (flipflopName number).toList = 'F' :: 'F' :: digits ∧
    digits ≠ [] ∧ digits.all Char.isDigit = true ∧ decimalValue digits = number.toNat := by
  refine ⟨Nat.toDigits 10 number.toNat, ?_, Nat.toDigits_ne_nil, ?_, Nat.ofDigitChars_ten_toDigits⟩
  · have spelled : flipflopName number = "FF" ++ Nat.repr number.toNat := rfl
    rw [spelled, String.toList_append, Nat.toList_repr]
    rfl
  · exact List.all_eq_true.mpr fun c member =>
      Nat.isDigit_of_mem_toDigits (by decide) (by decide) member

theorem flipflopNumber?_flipflopName :
    flipflopNumber? (flipflopName number).toList = .ok (some number) := by
  obtain ⟨digits, spelled, nonempty, numeric, value⟩ := toList_flipflopName number
  have found : flipflopDigits? (flipflopName number).toList = some digits := by
    rw [spelled, flipflopDigits?]
    simp [nonempty, numeric]
  rw [flipflopNumber?, found]
  have bound : number.toNat < 65536 := number.toNat_lt
  simp [bound, value]

theorem isBlank_of_bounds {c : Char} (low : 33 ≤ c.toNat) (high : c.toNat ≤ 126) :
    Text.isBlank c = false := by
  simp only [Text.isBlank, Bool.or_eq_false_iff, Bool.and_eq_false_iff, decide_eq_false_iff_not]
  omega

theorem toNat_of_isDigit {c : Char} (digit : c.isDigit = true) :
    48 ≤ c.toNat ∧ c.toNat ≤ 57 := by
  simpa [Char.isDigit, UInt32.le_iff_toNat_le] using digit

theorem isWord_flipflopName : IsWord (flipflopName number).toList := by
  obtain ⟨digits, spelled, _, numeric, _⟩ := toList_flipflopName number
  rw [spelled]
  refine ⟨by simp, ?_⟩
  simp only [List.mem_cons, forall_eq_or_imp]
  refine ⟨rfl, rfl, fun c member => ?_⟩
  obtain ⟨low, high⟩ := toNat_of_isDigit (List.all_eq_true.mp numeric c member)
  exact isBlank_of_bounds (by omega) (by omega)

theorem isOperand_flipflopName : IsOperand (flipflopName number).toList := by
  obtain ⟨nonempty, unbroken⟩ := isWord_flipflopName number
  obtain ⟨digits, spelled, present, numeric, _⟩ := toList_flipflopName number
  have digit : ∀ c ∈ digits, c.isDigit = true := List.all_eq_true.mp numeric
  refine ⟨nonempty, fun c member => isSeparator_of_isBlank (unbroken c member), ?_, ?_, ?_⟩
  · intro gate same
    obtain ⟨c, member⟩ := List.exists_mem_of_ne_nil digits present
    have inside : c ∈ gate.mnemonic.toList := by simp [same, spelled, member]
    have capital := Gate.capital_of_mem_mnemonic inside
    have numeral := toNat_of_isDigit (digit c member)
    omega
  · simp [spelled]
  · intro closed
    have member := List.mem_of_getLast? closed
    rw [spelled] at member
    simp only [List.mem_cons, Char.reduceEq, false_or] at member
    exact absurd (digit _ member) (by decide)

end

namespace Atom

theorem isWord_word {atom : Atom} (operands : ∀ name, atom = .operand name → IsWord name) :
    IsWord atom.word := by
  cases atom with
  | opening => decide
  | closing => decide
  | gate kind =>
      refine ⟨(Atom.gate kind).word_ne_nil trivial, fun c member => ?_⟩
      obtain ⟨low, high⟩ := Gate.capital_of_mem_mnemonic member
      exact isBlank_of_bounds (by omega) (by omega)
  | operand name => exact operands name rfl

end Atom

theorem Spells.isWord {atoms : List Atom} {words : List (List Char)} (spells : Spells atoms words)
    (valid : ∀ atom ∈ atoms, IsWord atom.word) : ∀ word ∈ words, IsWord word := by
  induction spells with
  | nil => simp
  | apart atom _ ih =>
      exact List.forall_mem_cons.mpr ⟨valid atom (by simp),
        ih fun other member => valid other (List.mem_cons_of_mem _ member)⟩
  | @joined atom _ _ _ _ _ _ ih =>
      obtain ⟨first, others⟩ := List.forall_mem_cons.mp
        (ih fun other member => valid other (List.mem_cons_of_mem _ member))
      have front := valid atom (by simp)
      refine List.forall_mem_cons.mpr ⟨⟨by simp [front.nonempty], ?_⟩, others⟩
      intro c member
      exact (List.mem_append.mp member).elim (front.unbroken c) (first.unbroken c)

end Source

namespace Header

variable {header : Header}
  (ports : ∀ name ∈ header.inputs ++ header.outputs, IsPort name.toList)
include ports

theorem isPort_word {signal : Signal} (declared : header.Declares signal)
    (port : ∀ index, signal ≠ .flipflop index) : IsPort (header.word signal) := by
  cases signal with
  | input index =>
      have found : header.inputs[index]? = some header.inputs[index] :=
        List.getElem?_eq_getElem declared
      simp only [word, signalName?, found, Option.getD_some]
      exact ports _ (List.mem_append_left _ (List.getElem_mem declared))
  | output index =>
      have found : header.outputs[index]? = some header.outputs[index] :=
        List.getElem?_eq_getElem declared
      simp only [word, signalName?, found, Option.getD_some]
      exact ports _ (List.mem_append_right _ (List.getElem_mem declared))
  | flipflop index => exact absurd rfl (port index)

omit ports in
theorem exists_word_flipflop {index : Nat} (declared : header.Declares (.flipflop index)) :
    ∃ number, header.flipflops[index]? = some number ∧
      header.word (.flipflop index) = (flipflopName number).toList := by
  have found : header.flipflops[index]? = some header.flipflops[index] :=
    List.getElem?_eq_getElem declared
  exact ⟨header.flipflops[index], found, by simp [word, signalName?, found]⟩

/-- Declared signals are written as ports or as flip-flops. -/
theorem word_cases {signal : Signal} (declared : header.Declares signal) :
    IsPort (header.word signal) ∨ ∃ number, header.word signal = (flipflopName number).toList := by
  by_cases port : ∀ index, signal ≠ .flipflop index
  · exact Or.inl (isPort_word ports declared port)
  · simp only [not_forall, not_not] at port
    obtain ⟨index, rfl⟩ := port
    obtain ⟨number, _, spelled⟩ := exists_word_flipflop declared
    exact Or.inr ⟨number, spelled⟩

theorem isOperand_word {signal : Signal} (declared : header.Declares signal) :
    IsOperand (header.word signal) := by
  rcases word_cases ports declared with port | ⟨number, same⟩
  · exact port.isOperand
  · rw [same]
    exact isOperand_flipflopName number

theorem isWord_word {signal : Signal} (declared : header.Declares signal) :
    IsWord (header.word signal) := by
  rcases word_cases ports declared with port | ⟨number, same⟩
  · exact port.toIsWord
  · rw [same]
    exact isWord_flipflopName number

theorem phrase_term {formula : Formula}
    (declared : ∀ signal, .signal signal ∈ formula.tokens → header.Declares signal) :
    Phrase .factor (header.term formula).atoms (header.term formula) := by
  induction formula with
  | signal source =>
      have known := declared source (by simp [Formula.tokens])
      exact .operand (isOperand_word ports known)
  | not operand ih =>
      have inner := ih fun signal member => declared signal (by simp [Formula.tokens, member])
      exact .group (.factor (.not inner))
  | binary gate first last firstIh lastIh =>
      have front := firstIh fun signal member => declared signal (by simp [Formula.tokens, member])
      have back := lastIh fun signal member => declared signal (by simp [Formula.tokens, member])
      exact .group (front.factor.binary gate back)

theorem isWord_term {formula : Formula}
    (declared : ∀ signal, .signal signal ∈ formula.tokens → header.Declares signal) :
    ∀ atom ∈ (header.term formula).atoms, IsWord atom.word := by
  have operands : ∀ atom ∈ (header.term formula).atoms, ∀ name, atom = .operand name →
      IsWord name := by
    induction formula with
    | signal source =>
        have valid := isWord_word ports (declared source (by simp [Formula.tokens]))
        simp [term, Term.atoms, valid]
    | not operand ih =>
        have inner := ih fun signal member => declared signal (by simp [Formula.tokens, member])
        simp only [term, Term.atoms]
        grind
    | binary gate first last firstIh lastIh =>
        have front := firstIh fun signal member =>
          declared signal (by simp [Formula.tokens, member])
        have back := lastIh fun signal member =>
          declared signal (by simp [Formula.tokens, member])
        simp only [term, Term.atoms]
        grind
  exact fun atom member => atom.isWord_word (operands atom member)

omit ports in
theorem items_term (formula : Formula) :
    (header.term formula).items = formula.tokens.map header.item := by
  induction formula with
  | signal source => rfl
  | not operand ih => simp [term, Term.items, Formula.tokens, ih, item]
  | binary gate first last firstIh lastIh =>
      simp [term, Term.items, Formula.tokens, firstIh, lastIh, item]

variable {expression : List Token} (polish : Polish expression)
  (declared : ∀ signal, .signal signal ∈ expression → header.Declares signal)
include polish declared

theorem itemsOfWords_layout (layout : Layout) :
    itemsOfWords (layout.words (header.atoms expression)) = some (expression.map header.item) := by
  obtain ⟨formula, rfl⟩ := polish
  have phrase := phrase_term ports declared
  rw [atoms, Formula.ofTokens?_tokens, itemsOfWords, (layout.spells _).atoms_eq phrase.plain,
    phrase.factor.arrange_eq, items_term]

theorem isWord_layout (layout : Layout) :
    ∀ word ∈ layout.words (header.atoms expression), IsWord word := by
  obtain ⟨formula, rfl⟩ := polish
  rw [atoms, Formula.ofTokens?_tokens]
  exact (layout.spells _).isWord (isWord_term ports declared)

end Header

end GateLevel
