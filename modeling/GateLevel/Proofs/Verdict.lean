import GateLevel.Proofs.Formula
import GateLevel.Proofs.Runs

/-! Whether a tick over inputs of the right width succeeds, and how it fails if it does not, can be
read off the expressions alone, whatever the gates do. -/

namespace GateLevel

variable {σ V : Type}

def verdict (expression : List Token) : Except EvalError Unit :=
  match heightAfter expression 0 with
  | none | some 0 => .error .stackUnderflow
  | some 1 => .ok ()
  | some height => .error (.stackNotSingleton height)

def verdictOfAll : List Assignment → Except EvalError Unit
  | [] => .ok ()
  | assignment :: rest =>
    match verdict assignment.expression with
    | .error error => .error error
    | .ok () => verdictOfAll rest

def Netlist.verdict (netlist : Netlist) : Except EvalError Unit := verdictOfAll netlist.assignments

theorem verdict_eq_ok_iff (expression : List Token) :
    verdict expression = .ok () ↔ Polish expression := by
  rw [polish_iff, verdict]
  rcases heightAfter expression 0 with _ | _ | _ | height <;> simp

theorem verdictOfAll_eq_ok_iff (assignments : List Assignment) :
    verdictOfAll assignments = .ok () ↔
      ∀ assignment ∈ assignments, Polish assignment.expression := by
  induction assignments with
  | nil => simp [verdictOfAll]
  | cons assignment rest ih =>
      rw [List.forall_mem_cons, ← ih, ← verdict_eq_ok_iff]
      simp only [verdictOfAll]
      cases verdict assignment.expression <;> simp

theorem verdict_of_underflows {expression : List Token} (underflows : Underflows expression) :
    verdict expression = .error .stackUnderflow := by
  rw [verdict, (underflows_iff expression).mp underflows]

theorem verdict_of_not_underflows {expression : List Token} (nonempty : expression ≠ [])
    (enough : ¬ Underflows expression) (ill : ¬ Polish expression) :
    ∃ height, 2 ≤ height ∧ heightAfter expression 0 = some height ∧
      verdict expression = .error (.stackNotSingleton height) := by
  rw [underflows_iff] at enough
  rw [polish_iff] at ill
  obtain ⟨height, measured⟩ := Option.ne_none_iff_exists'.mp enough
  have pos := heightAfter_pos nonempty measured
  rw [measured, Option.some.injEq] at ill
  obtain ⟨more, rfl⟩ : ∃ more, height = more + 2 := ⟨height - 2, by omega⟩
  exact ⟨more + 2, by omega, measured, by simp only [verdict, measured]⟩

namespace Interpretation

variable (meaning : Interpretation σ V)

theorem operate_height (gate : Gate) (stack : List V) (context : σ) :
    (meaning.operate gate stack context).1.map List.length =
      if stack.length < gate.arity then .error .stackUnderflow
      else .ok (stack.length - gate.arity + 1) := by
  cases gate with
  | not => cases stack <;> simp [operate, Gate.arity, Except.map]
  | binary gate => rcases stack with _ | ⟨last, _ | ⟨first, rest⟩⟩ <;>
      simp [operate, Gate.arity, Except.map]

theorem execute_height {scope : Scope V} {tokens : List Token}
    (readable : ∀ signal, Token.signal signal ∈ tokens → ∃ value, scope.read signal = .ok value)
    (stack : List V) (context : σ) :
    (meaning.execute scope tokens stack context).1.map List.length =
      (heightAfter tokens stack.length).elim (.error .stackUnderflow) .ok := by
  induction tokens generalizing stack context with
  | nil => rfl
  | cons token rest ih =>
      have later : ∀ signal, Token.signal signal ∈ rest → ∃ value, scope.read signal = .ok value :=
        fun signal member => readable signal (List.mem_cons_of_mem _ member)
      cases token with
      | signal signal =>
          obtain ⟨value, found⟩ := readable signal (by simp)
          simp only [execute, found, heightAfter]
          exact ih later (value :: stack) context
      | gate gate =>
          have height := meaning.operate_height gate stack context
          simp only [execute, heightAfter]
          rcases operated : meaning.operate gate stack context with ⟨result, after⟩
          rw [operated] at height
          cases result with
          | error error =>
              split at height
              · rename_i few
                simpa [few] using height
              · simp [Except.map] at height
          | ok next =>
              split at height
              · simp [Except.map] at height
              · rename_i enough
                rw [if_neg enough, ← Except.ok.inj height]
                exact ih later next after

theorem evaluate_verdict {scope : Scope V} {expression : List Token}
    (readable : ∀ signal, Token.signal signal ∈ expression →
      ∃ value, scope.read signal = .ok value) (context : σ) :
    (meaning.evaluate scope expression context).1.map (fun _ => ()) = verdict expression := by
  have height := meaning.execute_height readable [] context
  rw [List.length_nil] at height
  simp only [evaluate, verdict]
  rcases executed : meaning.execute scope expression [] context with ⟨result, after⟩
  rw [executed] at height
  cases measured : heightAfter expression 0 with
  | none =>
      rw [measured] at height
      cases result with
      | error error => simpa [Except.map] using height
      | ok stack => simp [Except.map] at height
  | some number =>
      rw [measured] at height
      cases result with
      | error error => simp [Except.map] at height
      | ok stack =>
          rw [← Except.ok.inj height]
          rcases stack with _ | ⟨value, _ | ⟨next, rest⟩⟩ <;> simp [single, Except.map]

end Interpretation

namespace Settling

variable {meaning : Interpretation σ V} {inputs state : List V}

def Houses (settling : Settling σ V) : Target → Prop
  | .output index => index < settling.outputs.length
  | .flipflop index => index < settling.next.length

theorem exists_store {settling : Settling σ V} {target : Target} (houses : settling.Houses target)
    (value : V) : ∃ later, settling.store target value = some later := by
  cases target with
  | output index => exact ⟨_, if_pos houses⟩
  | flipflop index => exact ⟨_, if_pos houses⟩

theorem Houses.of_lengths {settling : Settling σ V} {target : Target}
    (houses : settling.Houses target) (later : Settling σ V)
    (outputs : later.outputs.length = settling.outputs.length)
    (next : later.next.length = settling.next.length) : later.Houses target := by
  cases target with
  | output index => simpa only [Houses, outputs] using houses
  | flipflop index => simpa only [Houses, next] using houses

theorem exists_read_output_iff (outputs : List (Option V)) (index : Nat) :
    (∃ value, Scope.read ⟨inputs, state, outputs⟩ (.output index) = .ok value) ↔
      ∃ value, outputs[index]?.join = some value := by
  simp only [Scope.read]
  rcases outputs[index]? with _ | _ | value <;> simp

theorem assign_verdict (meaning : Interpretation σ V) {settling : Settling σ V}
    {assignment : Assignment} (readable : ∀ signal ∈ assignment.operands,
      ∃ value, Scope.read ⟨inputs, state, settling.outputs⟩ signal = .ok value)
    (houses : settling.Houses assignment.target) :
    (settling.assign meaning inputs state assignment).1 = verdict assignment.expression := by
  rw [← meaning.evaluate_verdict (fun signal mentioned =>
    readable signal ((assignment.mem_operands_iff signal).mpr mentioned)) settling.context]
  simp only [assign]
  rcases meaning.evaluate _ _ _ with ⟨result, after⟩
  cases result with
  | error error => rfl
  | ok value =>
      obtain ⟨later, stored⟩ := exists_store
        (houses.of_lengths { settling with context := after } rfl rfl) value
      simp only [stored]
      rfl

/-- What could be read before an assignment can be read after it, and so can what it drives. -/
theorem readable_assign {assignment : Assignment} {settling later : Settling σ V}
    (assigned : settling.assign meaning inputs state assignment = (.ok (), later))
    {known : Signal → Prop} (readable : ∀ signal, known signal →
      ∃ value, Scope.read ⟨inputs, state, settling.outputs⟩ signal = .ok value)
    (signal : Signal) (now : known signal ∨ assignment.Drives signal) :
    ∃ value, Scope.read ⟨inputs, state, later.outputs⟩ signal = .ok value := by
  obtain ⟨value, _, present, others, _⟩ := assign_eq_ok assigned
  rcases now with old | ⟨index, target, rfl⟩
  · cases signal with
    | input index => exact readable (.input index) old
    | flipflop index => exact readable (.flipflop index) old
    | output index =>
        by_cases same : Target.output index = assignment.target
        · rw [← same] at present
          exact (exists_read_output_iff later.outputs index).mpr ⟨value, present⟩
        · rw [exists_read_output_iff]
          have kept : later.outputs[index]?.join = settling.outputs[index]?.join := others _ same
          rw [kept, ← exists_read_output_iff]
          exact readable (.output index) old
  · rw [target] at present
    exact (exists_read_output_iff later.outputs index).mpr ⟨value, present⟩

theorem run_verdict (meaning : Interpretation σ V) {assignments : List Assignment}
    {known : Signal → Prop} (ordered : Ordered known assignments) {settling : Settling σ V}
    (readable : ∀ signal, known signal →
      ∃ value, Scope.read ⟨inputs, state, settling.outputs⟩ signal = .ok value)
    (houses : ∀ assignment ∈ assignments, settling.Houses assignment.target) :
    (settling.run meaning inputs state assignments).1 = verdictOfAll assignments := by
  induction assignments generalizing known settling with
  | nil => rfl
  | cons assignment rest ih =>
      have first := assign_verdict meaning
        (fun signal read => readable signal (ordered.1 signal read))
        (houses assignment (by simp))
      simp only [run, verdictOfAll, ← first]
      rcases assigned : settling.assign meaning inputs state assignment with ⟨result, later⟩
      cases result with
      | error error => rfl
      | ok done =>
          obtain ⟨_, _, _, _, outputs, next⟩ := assign_eq_ok assigned
          refine ih ordered.2 (readable_assign assigned readable) ?_
          intro other member
          exact (houses other (List.mem_cons_of_mem _ member)).of_lengths later outputs next

theorem exists_drivenFrom {outputs : List (Option V)}
    (driven : ∀ index < outputs.length, ∃ value, outputs[index]?.join = some value)
    (position : Nat) : ∃ values, drivenFrom position outputs = .ok values := by
  refine ⟨outputs.filterMap id, (drivenFrom_eq_ok_iff position outputs _).mpr ?_⟩
  induction outputs with
  | nil => rfl
  | cons output rest ih =>
      obtain ⟨value, found⟩ := driven 0 (by simp)
      have later := ih fun index bound => driven (index + 1) (Nat.succ_lt_succ bound)
      obtain rfl : output = some value := by simpa using found
      simpa using later

end Settling

namespace Circuit

variable {inputs : List V} {circuit : Circuit σ V}

theorem houses_of_declares (state : circuit.state.length = circuit.netlist.flipflops.length)
    {target : Target} (declared : circuit.netlist.Declares target.signal) :
    (Settling.mk (List.replicate circuit.netlist.outputs.length none) circuit.state
      circuit.context).Houses target := by
  cases target with
  | output index =>
      rw [Settling.Houses, List.length_replicate]
      exact declared
  | flipflop index =>
      rw [Settling.Houses, state]
      exact declared

theorem Runs.tick_result {netlist : Netlist} (runs : circuit.Runs netlist)
    (meaning : Interpretation σ V) (orderly : netlist.Orderly)
    (width : inputs.length = netlist.inputs.length) :
    (circuit.tick meaning inputs).result = netlist.verdict := by
  obtain ⟨rfl, state⟩ := runs
  have seeds : ∀ signal,
      Seeded circuit.netlist.inputs.length circuit.netlist.flipflops.length signal →
      ∃ value, Scope.read ⟨inputs, circuit.state,
        List.replicate circuit.netlist.outputs.length none⟩ signal = .ok value := by
    intro signal seeded
    cases seeded with
    | input bound => simp [Scope.read, width, bound]
    | flipflop bound => simp [Scope.read, state, bound]
  have result := Settling.run_verdict meaning orderly.ordered seeds fun assignment member =>
      houses_of_declares state (orderly.targets_declared assignment member)
  rw [Netlist.verdict, ← result]
  simp only [Circuit.tick, width, ne_eq, not_true_eq_false, if_false]
  rcases ran : Settling.run meaning inputs circuit.state circuit.netlist.assignments _ with
    ⟨result, final, begun⟩
  cases result with
  | error error => rfl
  | ok done =>
      obtain ⟨_, length, _⟩ := Settling.run_keeps ran
      obtain ⟨outputs, driven⟩ := Settling.exists_drivenFrom (by
        intro index (bound : index < final.outputs.length)
        rw [length, List.length_replicate] at bound
        obtain ⟨assignment, member, target⟩ := orderly.outputs_driven index bound
        obtain ⟨_, value, _, present⟩ := Settling.run_solves ran orderly.targets_distinct (by
          intro index _
          simp only [Settling.value?, List.getElem?_replicate]
          split <;> rfl) assignment member
        rw [target] at present
        exact ⟨value, present⟩) 0
      simp only [driven]

theorem Runs.tick_eq_ok_iff {netlist : Netlist} (runs : circuit.Runs netlist)
    (meaning : Interpretation σ V) (orderly : netlist.Orderly) (inputs : List V) :
    (circuit.tick meaning inputs).result = .ok () ↔
      inputs.length = netlist.inputs.length ∧
        ∀ assignment ∈ netlist.assignments, Polish assignment.expression := by
  by_cases width : inputs.length = netlist.inputs.length
  · rw [runs.tick_result meaning orderly width, Netlist.verdict, verdictOfAll_eq_ok_iff]
    simp [width]
  · rw [← runs.same] at width
    simp [Circuit.tick, width, ← runs.same]

end Circuit

end GateLevel
