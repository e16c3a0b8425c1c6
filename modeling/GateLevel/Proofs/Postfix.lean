import GateLevel.Proofs.Correspondence
import GateLevel.Proofs.Verdict

/-! An expression is written down by one formula at most. It has a value exactly if there is one and
all its signals can be read. Otherwise the first offending token decides how it fails or, if there
is none, what is left on the stack. -/

namespace GateLevel

variable {σ V : Type}

namespace Formula

def graft (trees : Signal → Formula) : Formula → Formula
  | signal source => trees source
  | not operand => .not (operand.graft trees)
  | binary gate first last => .binary gate (first.graft trees) (last.graft trees)

theorem graft_signal (formula : Formula) : formula.graft .signal = formula := by
  induction formula with
  | signal source => rfl
  | not operand ih => rw [graft, ih]
  | binary gate first last firstIh lastIh => rw [graft, firstIh, lastIh]

def assemble : List Token → List Formula → Option (List Formula)
  | [], stack => some stack
  | .signal source :: rest, stack => assemble rest (.signal source :: stack)
  | .gate .not :: rest, operand :: stack => assemble rest (.not operand :: stack)
  | .gate (.binary gate) :: rest, last :: first :: stack =>
    assemble rest (.binary gate first last :: stack)
  | .gate _ :: _, _ => none

theorem assemble_tokens (formula : Formula) (rest : List Token) (stack : List Formula) :
    assemble (formula.tokens ++ rest) stack = assemble rest (formula :: stack) := by
  induction formula generalizing rest stack with
  | signal source => rfl
  | not operand ih => simp only [tokens, List.append_assoc, ih, List.singleton_append, assemble]
  | binary gate first last firstIh lastIh =>
      simp only [tokens, List.append_assoc, firstIh, lastIh, List.singleton_append, assemble]

theorem tokens_injective : Function.Injective tokens := by
  intro first second same
  have one := first.assemble_tokens [] []
  have other := second.assemble_tokens [] []
  rw [same, other] at one
  simpa [assemble] using one.symm

end Formula

namespace Scope

def Holds (scope : Scope V) : Signal → V → Prop
  | .input index, value => scope.inputs[index]? = some value
  | .flipflop index, value => scope.state[index]? = some value
  | .output index, value => scope.outputs[index]? = some (some value)

def Reads (scope : Scope V) (tokens : List Token) : Prop :=
  ∀ signal, Token.signal signal ∈ tokens → ∃ value, scope.Holds signal value

inductive Offends (scope : Scope V) (height : Nat) : Token → EvalError → Prop
  | underflow {gate : Gate} :
      height < gate.arity → Offends scope height (.gate gate) .stackUnderflow
  | unassigned {index} : scope.outputs[index]? = some none →
      Offends scope height (.signal (.output index)) (.unassignedOutput index)
  | input {index} : scope.inputs.length ≤ index →
      Offends scope height (.signal (.input index)) (.unknownReference (.input index))
  | flipflop {index} : scope.state.length ≤ index →
      Offends scope height (.signal (.flipflop index)) (.unknownReference (.flipflop index))
  | output {index} : scope.outputs.length ≤ index →
      Offends scope height (.signal (.output index)) (.unknownReference (.output index))

structure Admits (scope : Scope V) (tokens : List Token) (height : Nat) : Prop where
  reads : scope.Reads tokens
  measured : heightAfter tokens 0 = some height

inductive Rejects (scope : Scope V) : List Token → EvalError → Prop
  | token {front token back height cause} : scope.Admits front height →
      scope.Offends height token cause → Rejects scope (front ++ token :: back) cause
  | empty : Rejects scope [] .stackUnderflow
  | surplus {expression height} : scope.Admits expression height → 2 ≤ height →
      Rejects scope expression (.stackNotSingleton height)

variable {scope : Scope V}

theorem read_eq_ok_iff (signal : Signal) (value : V) :
    scope.read signal = .ok value ↔ scope.Holds signal value := by
  cases signal with
  | input index => cases found : scope.inputs[index]? <;> simp [read, Holds, found]
  | flipflop index => cases found : scope.state[index]? <;> simp [read, Holds, found]
  | output index =>
      rcases found : scope.outputs[index]? with _ | _ | other <;> simp [read, Holds, found]

theorem Holds.unique {signal : Signal} {value other : V} (holds : scope.Holds signal value)
    (same : scope.Holds signal other) : value = other := by
  rw [← read_eq_ok_iff] at holds same
  exact Except.ok.inj (holds.symm.trans same)

theorem exists_offends_of_not_holds {signal : Signal}
    (unread : ¬ ∃ value, scope.Holds signal value) (height : Nat) :
    ∃ cause, scope.Offends height (.signal signal) cause := by
  cases signal with
  | input index =>
      refine ⟨_, .input (Nat.le_of_not_lt fun bound => unread ?_)⟩
      exact ⟨_, List.getElem?_eq_getElem bound⟩
  | flipflop index =>
      refine ⟨_, .flipflop (Nat.le_of_not_lt fun bound => unread ?_)⟩
      exact ⟨_, List.getElem?_eq_getElem bound⟩
  | output index =>
      rcases found : scope.outputs[index]? with _ | _ | value
      · exact ⟨_, .output (List.getElem?_eq_none_iff.mp found)⟩
      · exact ⟨_, .unassigned found⟩
      · exact absurd ⟨value, found⟩ unread

theorem Offends.read {signal : Signal} {height : Nat} {cause : EvalError}
    (offends : scope.Offends height (.signal signal) cause) :
    scope.read signal = .error cause := by
  cases offends with
  | unassigned found => simp [Scope.read, found]
  | input bound => simp [Scope.read, List.getElem?_eq_none bound]
  | flipflop bound => simp [Scope.read, List.getElem?_eq_none bound]
  | output bound => simp [Scope.read, List.getElem?_eq_none bound]

theorem Reads.read {tokens : List Token} (reads : scope.Reads tokens) (signal : Signal)
    (mentioned : Token.signal signal ∈ tokens) : ∃ value, scope.read signal = .ok value := by
  obtain ⟨value, holds⟩ := reads signal mentioned
  exact ⟨value, (read_eq_ok_iff signal value).mpr holds⟩

theorem Reads.append {front back : List Token} (reads : scope.Reads front)
    (later : scope.Reads back) : scope.Reads (front ++ back) := by
  intro signal mentioned
  exact (List.mem_append.mp mentioned).elim (reads signal) (later signal)

theorem Admits.append_token {tokens : List Token} {token : Token} {height : Nat}
    (admits : scope.Admits tokens height) (sound : ¬ ∃ cause, scope.Offends height token cause) :
    ∃ next, scope.Admits (tokens ++ [token]) next := by
  cases token with
  | gate gate =>
      have enough : ¬ height < gate.arity := fun few => sound ⟨_, .underflow few⟩
      refine ⟨height - gate.arity + 1, admits.reads.append (by simp [Reads]), ?_⟩
      simp [heightAfter_append, admits.measured, heightAfter, enough]
  | signal source =>
      have held : ∃ value, scope.Holds source value := by
        by_contra unread
        exact sound (exists_offends_of_not_holds unread height)
      refine ⟨height + 1, admits.reads.append ?_, ?_⟩
      · intro signal mentioned
        obtain rfl : signal = source := by simpa using mentioned
        exact held
      · simp [heightAfter_append, admits.measured, heightAfter]

/-- Going through the tokens from the left, all are admitted or one of them is the first to
offend. -/
theorem admits_or_offends (scope : Scope V) (tokens : List Token) :
    (∃ height, scope.Admits tokens height) ∨
      ∃ front token back height cause, tokens = front ++ token :: back ∧
        scope.Admits front height ∧ scope.Offends height token cause := by
  induction tokens using List.reverseRecOn with
  | nil => exact Or.inl ⟨0, by simp [Reads], rfl⟩
  | append_singleton before token ih =>
      rcases ih with ⟨height, admits⟩ | ⟨front, first, back, height, cause, rfl, offends⟩
      · by_cases offends : ∃ cause, scope.Offends height token cause
        · obtain ⟨cause, offends⟩ := offends
          exact Or.inr ⟨before, token, [], height, cause, rfl, admits, offends⟩
        · exact Or.inl (admits.append_token offends)
      · exact Or.inr ⟨front, first, back ++ [token], height, cause, by simp, offends⟩

end Scope

namespace Interpretation

variable (meaning : Interpretation σ V) {scope : Scope V}

theorem execute_append (front back : List Token) (stack : List V) (context : σ) :
    meaning.execute scope (front ++ back) stack context =
      match meaning.execute scope front stack context with
      | (.error cause, later) => (.error cause, later)
      | (.ok next, later) => meaning.execute scope back next later := by
  induction front generalizing stack context with
  | nil => rfl
  | cons token rest ih =>
      cases token with
      | signal source =>
          simp only [List.cons_append, execute]
          cases scope.read source with
          | error cause => rfl
          | ok value => exact ih (value :: stack) context
      | gate gate =>
          simp only [List.cons_append, execute]
          rcases meaning.operate gate stack context with ⟨cause | next, later⟩
          · rfl
          · exact ih next later

theorem execute_of_admits {tokens : List Token} {height : Nat} (admits : scope.Admits tokens height)
    (context : σ) : ∃ stack later, meaning.execute scope tokens [] context = (.ok stack, later) ∧
      stack.length = height := by
  have measured := meaning.execute_height admits.reads.read [] context
  rw [List.length_nil, admits.measured] at measured
  rcases executed : meaning.execute scope tokens [] context with ⟨cause | stack, later⟩
  · simp [executed, Except.map] at measured
  · rw [executed] at measured
    exact ⟨stack, later, rfl, Except.ok.inj measured⟩

theorem execute_of_offends {token : Token} {stack : List V} {cause : EvalError}
    (offends : scope.Offends stack.length token cause) (back : List Token) (context : σ) :
    (meaning.execute scope (token :: back) stack context).1 = .error cause := by
  cases token with
  | signal source => simp only [execute, offends.read]
  | gate gate =>
      cases offends with
      | underflow few =>
          have height := meaning.operate_height gate stack context
          rw [if_pos few] at height
          simp only [execute]
          rcases operated : meaning.operate gate stack context with ⟨cause | next, later⟩
          · simpa [operated, Except.map] using height
          · simp [operated, Except.map] at height

theorem evaluate_of_rejects {expression : List Token} {cause : EvalError}
    (rejects : scope.Rejects expression cause) (context : σ) :
    (meaning.evaluate scope expression context).1 = .error cause := by
  cases rejects with
  | empty => rfl
  | @token front token back height cause admits offends =>
      obtain ⟨stack, later, executed, rfl⟩ := meaning.execute_of_admits admits context
      have failed := meaning.execute_of_offends offends back later
      simp only [evaluate, execute_append, executed]
      rcases stopped : meaning.execute scope (token :: back) stack later with ⟨other | final, last⟩
      · simpa [stopped] using failed
      · simp [stopped] at failed
  | surplus admits many =>
      obtain ⟨stack, later, executed, rfl⟩ := meaning.execute_of_admits admits context
      obtain ⟨top, next, rest, rfl⟩ : ∃ top next rest, stack = top :: next :: rest := by
        rcases stack with _ | ⟨top, _ | ⟨next, rest⟩⟩
        · simp at many
        · simp at many
        · exact ⟨top, next, rest, rfl⟩
      simp [evaluate, executed, single]

/-- An expression that is not rejected is admitted and leaves one value. -/
theorem polish_or_rejects (scope : Scope V) (expression : List Token) :
    (Polish expression ∧ scope.Reads expression) ∨ ∃ cause, scope.Rejects expression cause := by
  rcases scope.admits_or_offends expression with
    ⟨height, admits⟩ | ⟨front, token, back, height, cause, rfl, admits, offends⟩
  · by_cases empty : expression = []
    · subst empty
      exact Or.inr ⟨_, .empty⟩
    · have least := heightAfter_pos empty admits.measured
      by_cases one : height = 1
      · subst one
        exact Or.inl ⟨(polish_iff expression).mpr admits.measured, admits.reads⟩
      · exact Or.inr ⟨_, .surplus admits (by omega)⟩
  · exact Or.inr ⟨cause, .token admits offends⟩

theorem exists_evaluate_of_polish {expression : List Token} (polish : Polish expression)
    (reads : scope.Reads expression) (context : σ) :
    ∃ value, (meaning.evaluate scope expression context).1 = .ok value := by
  have verdict := meaning.evaluate_verdict reads.read context
  rw [(verdict_eq_ok_iff expression).mpr polish] at verdict
  rcases evaluated : (meaning.evaluate scope expression context).1 with cause | value
  · simp [evaluated, Except.map] at verdict
  · exact ⟨value, rfl⟩

theorem exists_evaluate_iff (expression : List Token) (context : σ) :
    (∃ value, (meaning.evaluate scope expression context).1 = .ok value) ↔
      Polish expression ∧ scope.Reads expression := by
  constructor
  · rintro ⟨value, evaluated⟩
    refine (polish_or_rejects scope expression).resolve_right ?_
    rintro ⟨cause, rejects⟩
    rw [meaning.evaluate_of_rejects rejects context] at evaluated
    cases evaluated
  · rintro ⟨polish, reads⟩
    exact meaning.exists_evaluate_of_polish polish reads context

theorem evaluate_eq_error_iff (expression : List Token) (context : σ) (cause : EvalError) :
    (meaning.evaluate scope expression context).1 = .error cause ↔
      scope.Rejects expression cause := by
  constructor
  · intro failed
    rcases polish_or_rejects scope expression with ⟨polish, reads⟩ | ⟨other, rejects⟩
    · obtain ⟨value, evaluated⟩ := meaning.exists_evaluate_of_polish polish reads context
      cases evaluated.symm.trans failed
    · obtain rfl := Except.error.inj
        ((meaning.evaluate_of_rejects rejects context).symm.trans failed)
      exact rejects
  · intro rejects
    exact meaning.evaluate_of_rejects rejects context

end Interpretation

end GateLevel
