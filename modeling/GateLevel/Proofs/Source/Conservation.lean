import GateLevel.Proofs.Source.Grammar
import GateLevel.Source.Reader
import Mathlib.Data.List.Forall2

/-! Whatever the words of an expression are, reading them fails just if their parentheses do not
match, and loses and adds nothing otherwise. -/

namespace GateLevel.Source

/-- Parentheses come off the front and the end of a word, in any order, as long as something of the
word is left. -/
inductive Peeled : List Char → List (List Char) → Prop
  | opening {rest pieces} : rest ≠ [] → Peeled rest pieces → Peeled ('(' :: rest) (['('] :: pieces)
  | closing {front pieces} : front ≠ [] → Peeled front pieces →
      Peeled (front ++ [')']) (pieces ++ [[')']])
  | bare {word} : (∀ rest, word = '(' :: rest → rest = []) →
      (∀ front, word = front ++ [')'] → front = []) → Peeled word [word]

section

variable {word front rest : List Char}

theorem peel_opening (nonempty : rest ≠ []) : peel ('(' :: rest) = ['('] :: peel rest := by
  obtain ⟨c, back, rfl⟩ := List.exists_cons_of_ne_nil nonempty
  rfl

theorem peel_of_unopened (unopened : ∀ rest, word = '(' :: rest → rest = []) :
    peel word = peelEnd word.reverse := by
  rw [peel]
  exact fun c rest same => List.cons_ne_nil c rest (unopened _ same)

theorem peelEnd_closing (nonempty : front ≠ []) :
    peelEnd (front ++ [')']).reverse = peelEnd front.reverse ++ [[')']] := by
  obtain ⟨c, back, split⟩ := List.exists_cons_of_ne_nil (List.reverse_ne_nil_iff.mpr nonempty)
  rw [List.reverse_append, List.reverse_singleton, List.singleton_append, split, peelEnd]

theorem peelEnd_of_unclosed (unclosed : ∀ front, word = front ++ [')'] → front = []) :
    peelEnd word.reverse = [word] := by
  rw [peelEnd, List.reverse_reverse]
  intro c back same
  have split := congrArg List.reverse same
  rw [List.reverse_reverse, List.reverse_cons] at split
  exact List.reverse_ne_nil_iff.mpr (List.cons_ne_nil c back) (unclosed _ split)

theorem peel_bare (unopened : ∀ rest, word = '(' :: rest → rest = [])
    (unclosed : ∀ front, word = front ++ [')'] → front = []) : peel word = [word] := by
  rw [peel_of_unopened unopened, peelEnd_of_unclosed unclosed]

theorem peel_closing (nonempty : front ≠ []) : peel (front ++ [')']) = peel front ++ [[')']] := by
  induction front with
  | nil => exact absurd rfl nonempty
  | cons c front ih =>
      by_cases opened : c = '('
      · subst opened
        by_cases last : front = []
        · subst last
          rfl
        · rw [List.cons_append, peel_opening (by simp), ih last, peel_opening last,
            List.cons_append]
      · have unopened : ∀ back rest, c :: back = '(' :: rest → rest = [] :=
          fun _ _ same => absurd (List.cons.inj same).1 opened
        have still := unopened (front ++ [')'])
        rw [← List.cons_append] at still
        rw [peel_of_unopened still, peelEnd_closing nonempty, ← peel_of_unopened (unopened front)]

theorem peeled_peel (word : List Char) : Peeled word (peel word) := by
  induction size : word.length using Nat.strongRecOn generalizing word with
  | _ size ih =>
      by_cases unopened : ∀ rest, word = '(' :: rest → rest = []
      · by_cases unclosed : ∀ front, word = front ++ [')'] → front = []
        · rw [peel_bare unopened unclosed]
          exact .bare unopened unclosed
        · push Not at unclosed
          obtain ⟨front, rfl, nonempty⟩ := unclosed
          rw [peel_closing nonempty]
          exact .closing nonempty (ih front.length (by simp [← size]) front rfl)
      · push Not at unopened
        obtain ⟨rest, rfl, nonempty⟩ := unopened
        rw [peel_opening nonempty]
        exact .opening nonempty (ih rest.length (by simp [← size]) rest rfl)

theorem peeled_iff {pieces : List (List Char)} : Peeled word pieces ↔ peel word = pieces := by
  constructor
  · intro peeled
    induction peeled with
    | opening nonempty _ ih => rw [peel_opening nonempty, ih]
    | closing nonempty _ ih => rw [peel_closing nonempty, ih]
    | bare unopened unclosed => exact peel_bare unopened unclosed
  · rintro rfl
    exact peeled_peel word

theorem forall₂_peeled_iff {words : List (List Char)} {pieces : List (List (List Char))} :
    List.Forall₂ Peeled words pieces ↔ pieces = words.map peel := by
  have same : Peeled = fun word pieces => peel word = pieces := by
    funext word pieces
    exact propext peeled_iff
  rw [same, ← List.forall₂_map_left_iff, List.forall₂_eq_eq_eq, eq_comm]

end

/-- With so many parentheses open before the atoms, the closing ones never run ahead and all are
closed in the end. -/
structure Closes (depth : Nat) (atoms : List Atom) : Prop where
  covered : ∀ front, front <+: atoms → front.count .closing ≤ depth + front.count .opening
  level : atoms.count .closing = depth + atoms.count .opening

def Balanced (atoms : List Atom) : Prop :=
  (∀ front, front <+: atoms → front.count .closing ≤ front.count .opening) ∧
    atoms.count .closing = atoms.count .opening

theorem closes_zero_iff {atoms : List Atom} : Closes 0 atoms ↔ Balanced atoms := by
  constructor
  · rintro ⟨covered, level⟩
    simp only [Nat.zero_add] at covered level
    exact ⟨covered, level⟩
  · rintro ⟨covered, level⟩
    constructor <;> simpa only [Nat.zero_add]

theorem closes_nil_iff {depth : Nat} : Closes depth [] ↔ depth = 0 := by
  constructor
  · rintro ⟨_, level⟩
    simpa using level.symm
  · rintro rfl
    exact ⟨by simp, rfl⟩

theorem closes_cons_iff {atom : Atom} {rest : List Atom} {depth after : Nat}
    (moved : depth + [atom].count .opening = after + [atom].count .closing) :
    Closes depth (atom :: rest) ↔ Closes after rest := by
  have counts : ∀ mark (atoms : List Atom),
      (atom :: atoms).count mark = [atom].count mark + atoms.count mark := by
    intro mark atoms
    rw [← List.count_append, List.singleton_append]
  constructor
  · rintro ⟨covered, level⟩
    rw [counts .closing rest, counts .opening rest] at level
    refine ⟨fun front before => ?_, by omega⟩
    have bound := covered (atom :: front) (by simpa using before)
    rw [counts .closing front, counts .opening front] at bound
    omega
  · rintro ⟨covered, level⟩
    refine ⟨fun front before => ?_, ?_⟩
    · obtain rfl | ⟨later, rfl, sooner⟩ := List.prefix_cons_iff.mp before
      · exact Nat.zero_le _
      · have bound := covered later sooner
        rw [counts .closing later, counts .opening later]
        omega
    · rw [counts .closing rest, counts .opening rest]
      omega

namespace Pending

theorem count_opening_beneath (pending : List Pending) :
    (beneath pending).count .opening = pending.count .opening := by
  fun_induction beneath pending with
  | case1 kind below ih => simpa using ih
  | case2 => rfl

theorem beneath_cases (pending : List Pending) :
    beneath pending = [] ∨ ∃ below, beneath pending = .opening :: below := by
  fun_induction beneath pending with
  | case1 kind below ih => exact ih
  | case2 pending bare =>
      obtain - | ⟨- | kind, below⟩ := pending
      · exact Or.inl rfl
      · exact Or.inr ⟨below, rfl⟩
      · exact absurd rfl (bare kind below)

def item? : Pending → Option Item
  | opening => none
  | gate kind => some (.gate kind)

theorem flushed_append_beneath (pending : List Pending) :
    flushed pending ++ (beneath pending).filterMap item? = pending.filterMap item? := by
  simp only [flushed]
  fun_induction beneath pending with
  | case1 kind below ih => simpa [gates, item?] using ih
  | case2 pending bare =>
      obtain - | ⟨- | kind, below⟩ := pending
      · rfl
      · rfl
      · exact absurd rfl (bare kind below)

end Pending

theorem arrange_isSome_iff (atoms : List Atom) (pending : List Pending) :
    (arrange atoms pending).isSome ↔ Closes (pending.count .opening) atoms := by
  fun_induction arrange atoms pending with
  | case1 pending settled =>
      rw [← Pending.count_opening_beneath, settled]
      simp [closes_nil_iff]
  | case2 pending unsettled =>
      obtain ⟨below, split⟩ := (Pending.beneath_cases pending).resolve_left unsettled
      rw [← Pending.count_opening_beneath, split]
      simp [closes_nil_iff]
  | case3 name rest pending ih =>
      rw [Option.isSome_map, ih, closes_cons_iff]
      rfl
  | case4 rest pending ih =>
      rw [ih, closes_cons_iff]
      simp
  | case5 rest pending below settled ih =>
      rw [Option.isSome_map, ih, closes_cons_iff]
      rw [← Pending.count_opening_beneath, settled]
      simp
  | case6 rest pending unopened =>
      have settled := (Pending.beneath_cases pending).resolve_right
        fun ⟨below, split⟩ => unopened below split
      have level : pending.count .opening = 0 := by
        rw [← Pending.count_opening_beneath, settled]
        rfl
      rw [level]
      -- Nothing is open, and so the first atom alone already closes too many.
      constructor
      · simp
      · rintro ⟨covered, _⟩
        exact absurd (covered [.closing] ⟨rest, rfl⟩) (by simp)
  | case7 rest pending ih =>
      rw [ih, closes_cons_iff]
      simp
  | case8 gate rest pending ih =>
      rw [Option.isSome_map, ih, closes_cons_iff]
      simp [Pending.count_opening_beneath]

namespace Atom

def item? : Atom → Option Item
  | gate kind => some (.gate kind)
  | operand name => some (.operand name)
  | _ => none

def name? : Atom → Option (List Char)
  | operand name => some name
  | _ => none

end Atom

def Item.name? : Item → Option (List Char)
  | operand name => some name
  | gate _ => none

theorem Pending.filterMap_name?_flushed (pending : List Pending) :
    (flushed pending).filterMap Item.name? = [] := by
  simp [flushed, Item.name?]

/-- The gates that wait come in somewhere, and what is written comes out in order. -/
theorem arrange_conserves {atoms : List Atom} {pending : List Pending} {items : List Item}
    (arranged : arrange atoms pending = some items) :
    items.Perm (pending.filterMap Pending.item? ++ atoms.filterMap Atom.item?) ∧
      items.filterMap Item.name? = atoms.filterMap Atom.name? := by
  fun_induction arrange atoms pending generalizing items with
  | case1 pending settled =>
      obtain rfl := Option.some.inj arranged
      have whole := Pending.flushed_append_beneath pending
      rw [settled] at whole
      simp only [List.filterMap_nil, List.append_nil] at whole ⊢
      exact ⟨.of_eq whole, Pending.filterMap_name?_flushed pending⟩
  | case2 => cases arranged
  | case3 name rest pending ih =>
      obtain ⟨later, rested, rfl⟩ := Option.map_eq_some_iff.mp arranged
      obtain ⟨perm, names⟩ := ih rested
      constructor
      · exact (perm.cons _).trans List.perm_middle.symm
      · simpa [Item.name?, Atom.name?] using names
  | case4 rest pending ih => exact ih arranged
  | case5 rest pending below settled ih =>
      obtain ⟨later, rested, rfl⟩ := Option.map_eq_some_iff.mp arranged
      obtain ⟨perm, names⟩ := ih rested
      have whole := Pending.flushed_append_beneath pending
      rw [settled] at whole
      constructor
      · rw [← whole, List.append_assoc]
        exact perm.append_left _
      · rw [List.filterMap_append, Pending.filterMap_name?_flushed, names]
        rfl
  | case6 => cases arranged
  | case7 rest pending ih =>
      obtain ⟨perm, names⟩ := ih arranged
      exact ⟨perm.trans List.perm_middle.symm, names⟩
  | case8 gate rest pending ih =>
      obtain ⟨later, rested, rfl⟩ := Option.map_eq_some_iff.mp arranged
      obtain ⟨perm, names⟩ := ih rested
      constructor
      · rw [← Pending.flushed_append_beneath pending, List.append_assoc]
        refine List.Perm.append_left _ (perm.trans ?_)
        exact List.perm_middle.symm
      · rw [List.filterMap_append, Pending.filterMap_name?_flushed, names]
        rfl

theorem error_of_bind_eq_error {ε α β : Type} {first : Except ε α} {next : α → Except ε β}
    {error : ε} (failed : (first >>= next) = .error error) :
    first = .error error ∨ ∃ value, first = .ok value ∧ next value = .error error := by
  cases first with
  | error cause =>
      obtain rfl := Except.error.inj failed
      exact Or.inl rfl
  | ok value => exact Or.inr ⟨value, rfl, failed⟩

theorem resolveOperand_ne_mismatched (word : List Char) (declaration : Declaration) :
    resolveOperand word declaration ≠ .error .mismatchedParentheses := by
  intro failed
  rcases error_of_bind_eq_error failed with failed | ⟨number?, _, failed⟩
  · simp only [flipflopNumber?] at failed
    split at failed
    · cases failed
    · split at failed <;> cases failed
  · cases number? with
    | some number =>
        obtain failed | ⟨_, _, failed⟩ := error_of_bind_eq_error failed
        · simp only [mentionFlipflop] at failed
          split at failed <;> cases failed
        · cases failed
    | none =>
        dsimp only at failed
        split at failed
        · cases failed
        · split at failed <;> cases failed

theorem resolveItems_ne_mismatched (items : List Item) (declaration : Declaration) :
    resolveItems items declaration ≠ .error .mismatchedParentheses := by
  intro failed
  induction items generalizing declaration with
  | nil => cases failed
  | cons item rest ih =>
      cases item with
      | gate gate =>
          obtain failed | ⟨_, _, failed⟩ := error_of_bind_eq_error failed
          · exact ih declaration failed
          · cases failed
      | operand word =>
          obtain failed | ⟨_, _, failed⟩ := error_of_bind_eq_error failed
          · exact resolveOperand_ne_mismatched word declaration failed
          · obtain failed | ⟨_, _, failed⟩ := error_of_bind_eq_error failed
            · exact ih _ failed
            · cases failed

theorem addAssignment_eq_mismatched_iff (target : Target) (words : List (List Char))
    (declaration : Declaration) :
    addAssignment target words declaration = .error .mismatchedParentheses ↔
      itemsOfWords words = none := by
  cases read : itemsOfWords words with
  | none => simp [addAssignment, read, throw, throwThe, MonadExceptOf.throw]
  | some items =>
      simp only [addAssignment, read, reduceCtorEq, iff_false]
      intro failed
      obtain failed | ⟨_, _, failed⟩ := error_of_bind_eq_error failed
      · exact resolveItems_ne_mismatched items declaration failed
      · cases failed

/-- The words of an expression in whatever order. They are read just if no parenthesis is closed
before it is opened and all are closed in the end; then every gate and every operand stands once in
what is read, and nothing else does, the operands in the order of the words. -/
theorem itemsOfWords_conserves (words : List (List Char)) :
    ∃ pieces, (∀ others, List.Forall₂ Peeled words others ↔ others = pieces) ∧
      ((∃ items, itemsOfWords words = some items) ↔
        Balanced (pieces.flatten.map Atom.ofWord)) ∧
      (∀ target declaration,
        addAssignment target words declaration = .error .mismatchedParentheses ↔
          ¬ Balanced (pieces.flatten.map Atom.ofWord)) ∧
      ∀ items, itemsOfWords words = some items →
        items.Perm ((pieces.flatten.map Atom.ofWord).filterMap Atom.item?) ∧
          items.filterMap Item.name? = (pieces.flatten.map Atom.ofWord).filterMap Atom.name? := by
  have read : itemsOfWords words = arrange (((words.map peel).flatten).map Atom.ofWord) [] := by
    rw [← List.flatMap_def]
    rfl
  have balanced := arrange_isSome_iff (((words.map peel).flatten).map Atom.ofWord) []
  rw [List.count_nil, closes_zero_iff, ← read] at balanced
  refine ⟨words.map peel, fun _ => forall₂_peeled_iff, ?_, fun target declaration => ?_, ?_⟩
  · rw [← Option.isSome_iff_exists, balanced]
  · rw [addAssignment_eq_mismatched_iff, ← balanced, Option.not_isSome_iff_eq_none]
  · intro items arranged
    rw [read] at arranged
    exact arrange_conserves arranged

/-- A gate without operands, operands side by side, and an inverter with nothing to invert; then a
parenthesis that is closed too early. -/
theorem itemsOfWords_conserves_scrambled :
    Balanced ([.gate (.binary .nand), .opening, .opening, .operand ['a'], .operand ['b'], .closing,
        .gate (.binary .or), .gate .not, .closing, .operand ['c']]) ∧
      itemsOfWords (["NAND", "((a", "b)", "OR", "NOT", ")", "c"].map String.toList) =
        some [.operand ['a'], .operand ['b'], .gate .not, .gate (.binary .or), .operand ['c'],
          .gate (.binary .nand)] ∧
      ∀ target declaration,
        addAssignment target (["a)", "OR", "(b"].map String.toList) declaration =
          .error .mismatchedParentheses := by
  have read : itemsOfWords (["NAND", "((a", "b)", "OR", "NOT", ")", "c"].map String.toList) =
      some [.operand ['a'], .operand ['b'], .gate .not, .gate (.binary .or), .operand ['c'],
        .gate (.binary .nand)] := by
    decide +kernel
  obtain ⟨pieces, peeled, balanced, _⟩ :=
    itemsOfWords_conserves (["NAND", "((a", "b)", "OR", "NOT", ")", "c"].map String.toList)
  obtain rfl := (peeled _).mp (forall₂_peeled_iff.mpr rfl)
  obtain ⟨others, otherPeeled, _, mismatched, _⟩ :=
    itemsOfWords_conserves (["a)", "OR", "(b"].map String.toList)
  obtain rfl := (otherPeeled _).mp (forall₂_peeled_iff.mpr rfl)
  refine ⟨balanced.mp ⟨_, read⟩, read, fun target declaration => (mismatched _ _).mpr ?_⟩
  rintro ⟨covered, _⟩
  exact absurd (covered [.operand ['a'], .closing] ⟨_, rfl⟩) (by decide)

end GateLevel.Source
