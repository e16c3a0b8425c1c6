import GateLevel.Declaration
import Mathlib.Data.List.Basic
import Mathlib.Data.List.Induction

/-! Formulas, the expressions that write them down in reverse Polish order, and the height of the
operand stack, which tells such expressions from all others. -/

namespace GateLevel

inductive Formula
  | signal (source : Signal)
  | not (operand : Formula)
  | binary (gate : BinaryGate) (first last : Formula)
  deriving DecidableEq, Repr

namespace Formula

def tokens : Formula → List Token
  | signal source => [.signal source]
  | not operand => operand.tokens ++ [.gate .not]
  | binary gate first last => first.tokens ++ last.tokens ++ [.gate (.binary gate)]

def level (leaf : Signal → Level) : Formula → Level
  | signal source => leaf source
  | not operand => (operand.level leaf).not
  | binary gate first last => gate.apply (first.level leaf) (last.level leaf)

end Formula

/-- The expression is the reverse Polish order of some formula. -/
def Polish (expression : List Token) : Prop := ∃ formula : Formula, formula.tokens = expression

def heightAfter : List Token → Nat → Option Nat
  | [], height => some height
  | .signal _ :: rest, height => heightAfter rest (height + 1)
  | .gate gate :: rest, height =>
    if height < gate.arity then none else heightAfter rest (height - gate.arity + 1)

def Underflows (expression : List Token) : Prop :=
  ∃ front gate back height, expression = front ++ .gate gate :: back ∧
    heightAfter front 0 = some height ∧ height < gate.arity

theorem heightAfter_append (front back : List Token) (height : Nat) :
    heightAfter (front ++ back) height = (heightAfter front height).bind (heightAfter back) := by
  induction front generalizing height with
  | nil => rfl
  | cons token rest ih =>
      cases token with
      | signal source => exact ih (height + 1)
      | gate gate =>
          simp only [List.cons_append, heightAfter]
          split
          · rfl
          · exact ih _

theorem Formula.heightAfter_tokens (formula : Formula) (height : Nat) :
    heightAfter formula.tokens height = some (height + 1) := by
  induction formula generalizing height with
  | signal source => rfl
  | not operand ih => simp [tokens, heightAfter_append, ih, heightAfter, Gate.arity]
  | binary gate first last firstIh lastIh =>
      simp [tokens, heightAfter_append, firstIh, lastIh, heightAfter, Gate.arity]

/-- Tokens that leave a stack of some height turn formulas on the stack into as many formulas, and
write nothing but these. -/
theorem exists_formulas_of_heightAfter {tokens : List Token} {height : Nat} (stack : List Formula)
    (measured : heightAfter tokens stack.length = some height) :
    ∃ final : List Formula, final.length = height ∧
      final.reverse.flatMap Formula.tokens = stack.reverse.flatMap Formula.tokens ++ tokens := by
  induction tokens generalizing stack with
  | nil => exact ⟨stack, Option.some.inj measured, by simp⟩
  | cons token rest ih =>
      cases token with
      | signal source =>
          obtain ⟨final, length, written⟩ := ih (.signal source :: stack) measured
          exact ⟨final, length, by simp [written, Formula.tokens]⟩
      | gate gate =>
          simp only [heightAfter] at measured
          split at measured
          · simp at measured
          · rename_i enough
            cases gate with
            | not =>
                rcases stack with _ | ⟨operand, others⟩
                · simp [Gate.arity] at enough
                · obtain ⟨final, length, written⟩ := ih (.not operand :: others) measured
                  exact ⟨final, length, by simp [written, Formula.tokens]⟩
            | binary gate =>
                rcases stack with _ | ⟨last, _ | ⟨first, others⟩⟩
                · simp [Gate.arity] at enough
                · simp [Gate.arity] at enough
                · obtain ⟨final, length, written⟩ := ih (.binary gate first last :: others) measured
                  exact ⟨final, length, by simp [written, Formula.tokens]⟩

theorem polish_iff (expression : List Token) :
    Polish expression ↔ heightAfter expression 0 = some 1 := by
  constructor
  · rintro ⟨formula, rfl⟩
    exact formula.heightAfter_tokens 0
  · intro measured
    obtain ⟨final, length, written⟩ := exists_formulas_of_heightAfter [] measured
    obtain ⟨formula, rfl⟩ := List.length_eq_one_iff.mp length
    exact ⟨formula, by simpa using written⟩

instance (expression : List Token) : Decidable (Polish expression) :=
  decidable_of_iff _ (polish_iff expression).symm

theorem underflows_iff (expression : List Token) :
    Underflows expression ↔ heightAfter expression 0 = none := by
  constructor
  · rintro ⟨front, gate, back, height, rfl, measured, few⟩
    simp [heightAfter_append, measured, heightAfter, few]
  · intro failed
    -- Going back from the end, the gate stands behind the longest front that has a height.
    induction expression using List.reverseRecOn with
    | nil => simp [heightAfter] at failed
    | append_singleton front token ih =>
        cases measured : heightAfter front 0 with
        | none =>
            obtain ⟨earlier, gate, back, height, rfl, rest⟩ := ih measured
            exact ⟨earlier, gate, back ++ [token], height, by simp, rest⟩
        | some height =>
            rw [heightAfter_append, measured, Option.bind_some] at failed
            cases token with
            | signal source => simp [heightAfter] at failed
            | gate gate =>
                refine ⟨front, gate, [], height, rfl, measured, ?_⟩
                simpa [heightAfter] using failed

instance (expression : List Token) : Decidable (Underflows expression) :=
  decidable_of_iff _ (underflows_iff expression).symm

theorem heightAfter_pos {tokens : List Token} (nonempty : tokens ≠ []) {start height : Nat}
    (measured : heightAfter tokens start = some height) : 0 < height := by
  obtain ⟨front, token, rfl⟩ := (List.eq_nil_or_concat' tokens).resolve_left nonempty
  rw [heightAfter_append, Option.bind_eq_some_iff] at measured
  obtain ⟨before, _, last⟩ := measured
  cases token with
  | signal source => simp [heightAfter] at last; omega
  | gate gate => simp [heightAfter] at last; omega

end GateLevel
