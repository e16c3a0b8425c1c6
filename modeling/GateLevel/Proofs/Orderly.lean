import GateLevel.Proofs.Acceptance

/-! Resolved netlists: every target has one expression, and every output is driven before it is
read, so that facts about signals can be proved along the evaluation order. -/

namespace GateLevel

/-- What holds of the known signals, and of an output as soon as it holds of all that the output
reads, holds of everything that is read. -/
theorem Ordered.induction {known property : Signal → Prop} {order : List Assignment}
    (ordered : Ordered known order) (start : ∀ signal, known signal → property signal)
    (step : ∀ assignment ∈ order, (∀ signal ∈ assignment.operands, property signal) →
      ∀ signal, assignment.Drives signal → property signal) :
    ∀ assignment ∈ order, ∀ signal ∈ assignment.operands, property signal := by
  induction order generalizing known with
  | nil => simp
  | cons first rest ih =>
      have reads : ∀ signal ∈ first.operands, property signal :=
        fun signal read => start signal (ordered.1 signal read)
      intro assignment member
      rcases List.mem_cons.mp member with rfl | later
      · exact reads
      · refine ih ordered.2 ?_ ?_ assignment later
        · rintro signal (old | driven)
          · exact start signal old
          · exact step first (by simp) reads signal driven
        · intro other present
          exact step other (List.mem_cons_of_mem _ present)

namespace Netlist

def expression? (netlist : Netlist) (target : Target) : Option (List Token) :=
  (netlist.assignments.find? (·.target = target)).map (·.expression)

theorem expression?_eq_none_iff (netlist : Netlist) (target : Target) :
    netlist.expression? target = none ↔
      ∀ assignment ∈ netlist.assignments, assignment.target ≠ target := by
  simp [expression?]

structure Orderly (netlist : Netlist) : Prop where
  targets_distinct : (netlist.assignments.map (·.target)).Nodup
  outputs_driven : ∀ index < netlist.outputs.length,
    ∃ assignment ∈ netlist.assignments, assignment.target = .output index
  targets_declared : ∀ assignment ∈ netlist.assignments,
    netlist.Declares assignment.target.signal
  operands_declared : ∀ assignment ∈ netlist.assignments, ∀ signal ∈ assignment.operands,
    netlist.Declares signal
  ordered : Ordered (Seeded netlist.inputs.length netlist.flipflops.length) netlist.assignments

namespace Orderly

variable {netlist : Netlist}

theorem expression?_eq_some_iff (orderly : netlist.Orderly) (target : Target)
    (expression : List Token) :
    netlist.expression? target = some expression ↔ ⟨target, expression⟩ ∈ netlist.assignments := by
  simp only [expression?, Option.map_eq_some_iff]
  constructor
  · rintro ⟨assignment, found, rfl⟩
    have same := List.find?_some found
    rw [decide_eq_true_eq] at same
    rw [← same]
    exact List.mem_of_find?_eq_some found
  · intro member
    cases found : netlist.assignments.find? (·.target = target) with
    | none =>
        have absent := List.find?_eq_none.mp found ⟨target, expression⟩ member
        simp at absent
    | some assignment =>
        have same := List.find?_some found
        rw [decide_eq_true_eq] at same
        have one := List.inj_on_of_nodup_map orderly.targets_distinct
          (List.mem_of_find?_eq_some found) member same
        exact ⟨assignment, rfl, by rw [one]⟩

theorem induction (orderly : netlist.Orderly) {property : Signal → Prop}
    (seed : ∀ signal, Seeded netlist.inputs.length netlist.flipflops.length signal →
      property signal)
    (step : ∀ assignment ∈ netlist.assignments, ∀ index, assignment.target = .output index →
      (∀ signal ∈ assignment.operands, property signal) → property (.output index)) :
    ∀ signal, netlist.Declares signal → property signal := by
  have reads := orderly.ordered.induction seed (by
    rintro assignment member known _ ⟨index, target, rfl⟩
    exact step assignment member index target known)
  intro signal declared
  cases signal with
  | input index => exact seed _ (.input declared)
  | flipflop index => exact seed _ (.flipflop declared)
  | output index =>
      obtain ⟨assignment, member, target⟩ := orderly.outputs_driven index declared
      exact step assignment member index target (reads assignment member)

end Orderly

end Netlist

namespace Declaration

theorem resolve_eq_ok {declaration : Declaration} {netlist : Netlist}
    (resolved : declaration.resolve = .ok netlist) :
    netlist.toHeader = declaration.toHeader ∧
      netlist.assignments.Perm declaration.assignments ∧
      Ordered (Seeded declaration.inputs.length declaration.flipflops.length)
        netlist.assignments := by
  rw [resolve_of_wellFormed (wellFormed_of_resolve resolved)] at resolved
  split at resolved
  · rename_i none
    have perm := Schedule.plan_perm declaration.inputs.length declaration.flipflops.length
      declaration.assignments
    rw [show (Schedule.plan _ _ _).stuck = [] from none, List.append_nil] at perm
    rw [← Except.ok.inj resolved]
    exact ⟨rfl, perm, Schedule.plan_ordered _ _ _⟩
  · simp at resolved

theorem orderly_of_resolve {declaration : Declaration} {netlist : Netlist}
    (resolved : declaration.resolve = .ok netlist) : netlist.Orderly := by
  have wellFormed := wellFormed_of_resolve resolved
  obtain ⟨header, perm, ordered⟩ := resolve_eq_ok resolved
  rw [← header] at ordered
  refine ⟨?_, ?_, ?_, ?_, ordered⟩
  · exact (perm.map _).nodup_iff.mpr wellFormed.targets_distinct
  · intro index bound
    rw [header] at bound
    obtain ⟨assignment, member, target⟩ := wellFormed.outputs_assigned index bound
    exact ⟨assignment, perm.mem_iff.mpr member, target⟩
  · intro assignment member
    rw [header]
    exact wellFormed.targets_declared assignment (perm.mem_iff.mp member)
  · intro assignment member signal read
    rw [header]
    exact wellFormed.operands_declared assignment (perm.mem_iff.mp member) signal
      ((assignment.mem_operands_iff signal).mp read)

end Declaration

end GateLevel
