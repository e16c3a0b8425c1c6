import GateLevel.Circuit
import Mathlib.Data.List.Nodup

/-! A successful tick leaves every driven signal with the value that its expression has once all
outputs are known, and leaves the other flip-flops alone. -/

namespace GateLevel

variable {σ V : Type}

namespace Interpretation

variable (meaning : Interpretation σ V)

theorem execute_congr {first second : Scope V} {tokens : List Token} {stack : List V} {context : σ}
    (agree : ∀ signal, Token.signal signal ∈ tokens → first.read signal = second.read signal) :
    meaning.execute first tokens stack context = meaning.execute second tokens stack context := by
  induction tokens generalizing stack context with
  | nil => rfl
  | cons token rest ih =>
      have later : ∀ signal, Token.signal signal ∈ rest → first.read signal = second.read signal :=
        fun signal member => agree signal (List.mem_cons_of_mem _ member)
      cases token with
      | signal signal =>
          simp only [execute, agree signal (by simp)]
          split
          · rfl
          · exact ih later
      | gate gate =>
          simp only [execute]
          split
          · rfl
          · exact ih later

theorem evaluate_congr {first second : Scope V} {expression : List Token} {context : σ}
    (agree : ∀ signal, Token.signal signal ∈ expression →
      first.read signal = second.read signal) :
    meaning.evaluate first expression context = meaning.evaluate second expression context := by
  simp only [evaluate, meaning.execute_congr agree]

theorem exists_read_of_execute {scope : Scope V} {tokens : List Token} {stack final : List V}
    {context : σ} (executed : (meaning.execute scope tokens stack context).1 = .ok final)
    {signal : Signal} (mentioned : Token.signal signal ∈ tokens) :
    ∃ value, scope.read signal = .ok value := by
  induction tokens generalizing stack context with
  | nil => simp at mentioned
  | cons token rest ih =>
      cases token with
      | signal source =>
          simp only [execute] at executed
          split at executed
          · simp at executed
          · rename_i value found
            rcases List.mem_cons.mp mentioned with same | later
            · exact ⟨value, by rw [Token.signal.inj same, found]⟩
            · exact ih executed later
      | gate gate =>
          have later : Token.signal signal ∈ rest := by simpa using mentioned
          simp only [execute] at executed
          split at executed
          · simp at executed
          · exact ih executed later

theorem exists_read_of_evaluate {scope : Scope V} {expression : List Token} {context : σ}
    {value : V} (evaluated : (meaning.evaluate scope expression context).1 = .ok value)
    {signal : Signal} (mentioned : Token.signal signal ∈ expression) :
    ∃ operand, scope.read signal = .ok operand := by
  simp only [evaluate] at evaluated
  split at evaluated
  · simp at evaluated
  · rename_i stack later executed
    have ended : (meaning.execute scope expression [] context).1 = .ok stack := by rw [executed]
    exact meaning.exists_read_of_execute ended mentioned

end Interpretation

namespace Settling

def value? (settling : Settling σ V) : Target → Option V
  | .output index => settling.outputs[index]?.join
  | .flipflop index => settling.next[index]?

theorem store_eq_some {settling later : Settling σ V} {target : Target} {value : V}
    (stored : settling.store target value = some later) :
    later.value? target = some value ∧
      (∀ other, other ≠ target → later.value? other = settling.value? other) ∧
      later.outputs.length = settling.outputs.length ∧
      later.next.length = settling.next.length ∧ later.context = settling.context := by
  cases target with
  | output index =>
      simp only [store] at stored
      split at stored
      · rename_i bound
        rw [← Option.some.inj stored]
        refine ⟨by simp [value?, bound], ?_, by simp, rfl, rfl⟩
        rintro (other | other) different
        · have apart : index ≠ other := fun same => different (by rw [same])
          simp [value?, List.getElem?_set_ne apart]
        · rfl
      · simp at stored
  | flipflop index =>
      simp only [store] at stored
      split at stored
      · rename_i bound
        rw [← Option.some.inj stored]
        refine ⟨by simp [value?, bound], ?_, rfl, by simp, rfl⟩
        rintro (other | other) different
        · rfl
        · have apart : index ≠ other := fun same => different (by rw [same])
          simp [value?, List.getElem?_set_ne apart]
      · simp at stored

variable {meaning : Interpretation σ V} {inputs state : List V}

theorem assign_eq_ok {assignment : Assignment} {settling later : Settling σ V}
    (assigned : settling.assign meaning inputs state assignment = (.ok (), later)) :
    ∃ value, (meaning.evaluate ⟨inputs, state, settling.outputs⟩ assignment.expression
        settling.context).1 = .ok value ∧
      later.value? assignment.target = some value ∧
      (∀ other, other ≠ assignment.target → later.value? other = settling.value? other) ∧
      later.outputs.length = settling.outputs.length ∧
      later.next.length = settling.next.length := by
  simp only [assign] at assigned
  split at assigned
  · simp at assigned
  · rename_i value context evaluated
    split at assigned
    · simp at assigned
    · rename_i stored found
      obtain ⟨present, others, outputs, next, _⟩ := store_eq_some found
      rw [Prod.mk.injEq] at assigned
      rw [← assigned.2]
      exact ⟨value, by rw [evaluated], present, others, outputs, next⟩

theorem run_keeps {assignments : List Assignment} {settling final : Settling σ V}
    {begun : List Target}
    (ran : settling.run meaning inputs state assignments = (.ok (), final, begun)) :
    (∀ target, target ∉ assignments.map (·.target) →
        final.value? target = settling.value? target) ∧
      final.outputs.length = settling.outputs.length ∧
      final.next.length = settling.next.length := by
  induction assignments generalizing settling begun with
  | nil =>
      simp only [run, Prod.mk.injEq] at ran
      rw [← ran.2.1]
      simp
  | cons assignment rest ih =>
      simp only [run] at ran
      split at ran
      · simp at ran
      · rename_i later assigned
        simp only [Prod.mk.injEq] at ran
        obtain ⟨_, _, _, others, outputs, next⟩ := assign_eq_ok assigned
        have ranRest : run meaning inputs state rest later =
            (.ok (), final, (run meaning inputs state rest later).2.2) := by
          rw [← ran.1, ← ran.2.1]
        obtain ⟨kept, keptOutputs, keptNext⟩ := ih ranRest
        refine ⟨?_, keptOutputs.trans outputs, keptNext.trans next⟩
        intro target absent
        simp only [List.map_cons, List.mem_cons, not_or] at absent
        rw [kept target absent.2, others target absent.1]

theorem read_of_grown {old new : List (Option V)}
    (grown : ∀ (index : Nat) (value : V), old[index]?.join = some value →
      new[index]?.join = some value)
    {signal : Signal} {value : V} (found : Scope.read ⟨inputs, state, old⟩ signal = .ok value) :
    Scope.read ⟨inputs, state, new⟩ signal = .ok value := by
  cases signal with
  | input index => exact found
  | flipflop index => exact found
  | output index =>
      have driven : old[index]?.join = some value := by
        simp only [Scope.read] at found
        split at found <;> simp_all
      have still := grown index value driven
      simp only [Scope.read]
      rcases present : new[index]? with _ | _ | other
      · simp [present] at still
      · simp [present] at still
      · simp only [present, Option.join_some, Option.some.injEq] at still
        rw [still]

/-- The values that a run gives to its targets are those that their expressions have in the end.
Each target is driven once, so a value read on the way is never replaced. -/
theorem run_solves {assignments : List Assignment} {settling final : Settling σ V}
    {begun : List Target}
    (ran : settling.run meaning inputs state assignments = (.ok (), final, begun))
    (distinct : (assignments.map (·.target)).Nodup)
    (undriven : ∀ index, .output index ∈ assignments.map (·.target) →
      settling.value? (.output index) = none) :
    ∀ assignment ∈ assignments, ∃ context value,
      (meaning.evaluate ⟨inputs, state, final.outputs⟩ assignment.expression context).1 =
          .ok value ∧ final.value? assignment.target = some value := by
  induction assignments generalizing settling begun with
  | nil => simp
  | cons assignment rest ih =>
      have kept := (run_keeps ran).1
      simp only [run] at ran
      split at ran
      · simp at ran
      · rename_i later assigned
        simp only [Prod.mk.injEq] at ran
        have ranRest : run meaning inputs state rest later =
            (.ok (), final, (run meaning inputs state rest later).2.2) := by
          rw [← ran.1, ← ran.2.1]
        obtain ⟨value, evaluated, present, others, _, _⟩ := assign_eq_ok assigned
        rw [List.map_cons, List.nodup_cons] at distinct
        intro chosen member
        rcases List.mem_cons.mp member with rfl | earlier
        · refine ⟨settling.context, value, ?_, ?_⟩
          · rw [← evaluated]
            congr 1
            apply meaning.evaluate_congr
            intro signal mentioned
            obtain ⟨operand, found⟩ := meaning.exists_read_of_evaluate evaluated mentioned
            rw [found]
            refine read_of_grown ?_ found
            intro index driven known
            have absent : .output index ∉ (chosen :: rest).map (·.target) := by
              intro target
              have unknown := undriven index target
              rw [value?, known] at unknown
              simp at unknown
            exact (kept (.output index) absent).trans known
          · rw [(run_keeps ranRest).1 chosen.target distinct.1, present]
        · refine ih ranRest distinct.2 ?_ chosen earlier
          intro index target
          have apart : Target.output index ≠ assignment.target :=
            fun same => distinct.1 (same ▸ target)
          rw [others _ apart]
          exact undriven index (by simp [target])

theorem drivenFrom_eq_ok_iff (position : Nat) (outputs : List (Option V)) (values : List V) :
    drivenFrom position outputs = .ok values ↔ outputs = values.map some := by
  induction outputs generalizing position values with
  | nil =>
      simp only [drivenFrom, Except.ok.injEq]
      cases values <;> simp
  | cons output rest ih =>
      cases output with
      | none =>
          simp only [drivenFrom, reduceCtorEq, false_iff]
          cases values <;> simp
      | some value =>
          simp only [drivenFrom, bind, Except.bind]
          cases tail : drivenFrom (position + 1) rest with
          | error error =>
              simp only [reduceCtorEq, false_iff]
              cases values with
              | nil => simp
              | cons first others =>
                  intro same
                  rw [List.map_cons, List.cons.injEq] at same
                  simp [(ih (position + 1) others).mpr same.2] at tail
          | ok others =>
              have found := (ih (position + 1) others).mp tail
              cases values with
              | nil => simp [pure, Except.pure]
              | cons first more =>
                  simp only [pure, Except.pure, Except.ok.injEq, List.cons.injEq, List.map_cons,
                    Option.some.injEq, found, List.map_inj_right (f := some)
                      (fun _ _ => Option.some.inj)]

end Settling

namespace Circuit

variable {meaning : Interpretation σ V} {inputs : List V} {circuit : Circuit σ V}

theorem tick_eq_ok (ticked : (circuit.tick meaning inputs).result = .ok ()) :
    ∃ final begun outputs,
      (Settling.mk (List.replicate circuit.netlist.outputs.length none) circuit.state
          circuit.context).run meaning inputs circuit.state circuit.netlist.assignments =
        (.ok (), final, begun) ∧
      final.outputs = outputs.map some ∧
      (circuit.tick meaning inputs).circuit =
        ⟨circuit.netlist, final.context, final.next, outputs⟩ := by
  simp only [tick] at ticked ⊢
  split at ticked
  · simp at ticked
  · rename_i sized
    simp only [sized, if_false]
    rcases ran : Settling.run meaning inputs circuit.state circuit.netlist.assignments
      ⟨List.replicate circuit.netlist.outputs.length none, circuit.state, circuit.context⟩ with
      ⟨result, final, begun⟩
    simp only [ran] at ticked ⊢
    cases result with
    | error error => simp at ticked
    | ok done =>
        simp only at ticked ⊢
        cases driven : Settling.drivenFrom 0 final.outputs with
        | error error => simp [driven] at ticked
        | ok outputs =>
            exact ⟨final, begun, outputs, rfl,
              (Settling.drivenFrom_eq_ok_iff 0 final.outputs outputs).mp driven, rfl⟩

theorem tick_netlist (ticked : (circuit.tick meaning inputs).result = .ok ()) :
    (circuit.tick meaning inputs).circuit.netlist = circuit.netlist := by
  obtain ⟨final, begun, outputs, ran, driven, after⟩ := tick_eq_ok ticked
  rw [after]

theorem tick_state_length (ticked : (circuit.tick meaning inputs).result = .ok ()) :
    (circuit.tick meaning inputs).circuit.state.length = circuit.state.length := by
  obtain ⟨final, begun, outputs, ran, driven, after⟩ := tick_eq_ok ticked
  rw [after]
  exact (Settling.run_keeps ran).2.2

theorem tick_outputs_length (ticked : (circuit.tick meaning inputs).result = .ok ()) :
    (circuit.tick meaning inputs).circuit.outputs.length = circuit.netlist.outputs.length := by
  obtain ⟨final, begun, outputs, ran, driven, after⟩ := tick_eq_ok ticked
  have kept := (Settling.run_keeps ran).2.1
  rw [driven] at kept
  rw [after]
  simpa using kept

theorem tick_undriven (ticked : (circuit.tick meaning inputs).result = .ok ()) {index : Nat}
    (undriven : ∀ assignment ∈ circuit.netlist.assignments,
      assignment.target ≠ .flipflop index) :
    (circuit.tick meaning inputs).circuit.state[index]? = circuit.state[index]? := by
  obtain ⟨final, begun, outputs, ran, driven, after⟩ := tick_eq_ok ticked
  rw [after]
  apply (Settling.run_keeps ran).1 (.flipflop index)
  intro member
  obtain ⟨assignment, present, target⟩ := List.mem_map.mp member
  exact undriven assignment present target

end Circuit

end GateLevel
