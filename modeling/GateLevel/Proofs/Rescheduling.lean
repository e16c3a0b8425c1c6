import GateLevel.Proofs.Placement
import GateLevel.Proofs.Renumbering

/-! Planning goes over an order that it has made without changing it: the signals are used up in the
same sequence, and each of them releases the same assignments. -/

namespace GateLevel

def Waiting.after (gone : List Signal) (assignment : Assignment) : Waiting :=
  ⟨assignment, assignment.operands.filter (· ∉ gone)⟩

theorem Waiting.after_nil : after [] = start := by
  funext assignment
  simp [after, start]

theorem Waiting.release_after (source : Signal) (gone : List Signal) (assignment : Assignment) :
    (after gone assignment).release source = after (source :: gone) assignment := by
  simp [after, release, List.filter_filter, not_or]

namespace Schedule

def proceed (ready : List Signal) (waiting : List Waiting) : Schedule :=
  let separated := separate waiting
  let later := drain (announce separated.1 ready) separated.2
  ⟨separated.1.map (·.assignment) ++ later.placed, later.stuck⟩

theorem drain_cons (source : Signal) (ready : List Signal) (waiting : List Waiting) :
    drain (source :: ready) waiting = proceed ready (waiting.map (·.release source)) := by
  rw [drain]
  rfl

theorem plan_eq (inputs flipflops : Nat) (assignments : List Assignment) :
    plan inputs flipflops assignments =
      proceed (sources inputs flipflops) (assignments.map (.after [])) := by
  rw [Waiting.after_nil]
  rfl

theorem map_assignment_after (gone : List Signal) (assignments : List Assignment) :
    (assignments.map (Waiting.after gone)).map (·.assignment) = assignments :=
  List.map_map.trans (List.map_id _)

theorem drain_after (source : Signal) (ready gone : List Signal) (assignments : List Assignment) :
    drain (source :: ready) (assignments.map (.after gone)) =
      proceed ready (assignments.map (.after (source :: gone))) := by
  simp only [drain_cons, List.map_map, Function.comp_def, Waiting.release_after]

section

variable (gone : List Signal) (assignments : List Assignment)

def free : List Assignment :=
  assignments.filter fun assignment => (Waiting.after gone assignment).isReady

def blocked : List Assignment :=
  assignments.filter fun assignment => !(Waiting.after gone assignment).isReady

theorem separate_after :
    separate (assignments.map (.after gone)) =
      ((free gone assignments).map (.after gone),
        (blocked gone assignments).map (.after gone)) := by
  simp only [separate, free, blocked, List.filter_map, Function.comp_def]

theorem proceed_after (ready : List Signal) :
    proceed ready (assignments.map (.after gone)) =
      let later := drain (announce ((free gone assignments).map (.after gone)) ready)
        ((blocked gone assignments).map (.after gone))
      ⟨free gone assignments ++ later.placed, later.stuck⟩ := by
  simp only [proceed, separate_after, map_assignment_after]

/-- Assignments that were free stay so in front of some of the blocked ones, in whatever order. -/
theorem free_blocked_append {kept : List Assignment} (others : kept ⊆ blocked gone assignments) :
    free gone (free gone assignments ++ kept) = free gone assignments ∧
      blocked gone (free gone assignments ++ kept) = kept := by
  have waits : ∀ assignment ∈ kept, (Waiting.after gone assignment).isReady = false := by
    intro assignment member
    simpa [blocked] using (List.mem_filter.mp (others member)).2
  have first : free gone kept = [] := by simpa [free, List.filter_eq_nil_iff] using waits
  have last : blocked gone kept = kept := by simpa [blocked, List.filter_eq_self] using waits
  constructor
  · rw [free, List.filter_append, ← free, ← free, first]
    simp [free, List.filter_filter]
  · rw [blocked, List.filter_append, ← blocked, ← blocked, last]
    simp [free, blocked, List.filter_filter]

end

/-- What has been placed of the assignments is placed once more from its own order, without a
change. -/
def Stable (planning : List Assignment → Schedule) (assignments : List Assignment) : Prop :=
  planning (planning assignments).placed = ⟨(planning assignments).placed, []⟩

variable {gone : List Signal}

theorem stable_proceed {ready : List Signal} {assignments : List Assignment}
    (later : Stable (fun rest => drain (announce ((free gone assignments).map (.after gone)) ready)
      (rest.map (.after gone))) (blocked gone assignments)) :
    Stable (fun given => proceed ready (given.map (.after gone))) assignments := by
  have perm := drain_perm (announce ((free gone assignments).map (.after gone)) ready)
    ((blocked gone assignments).map (.after gone))
  rw [map_assignment_after] at perm
  obtain ⟨front, back⟩ := free_blocked_append gone assignments
    fun assignment member => perm.mem_iff.mp (List.mem_append_left _ member)
  simp only [Stable] at later ⊢
  simp only [proceed_after, front, back, later]

theorem stable_drain (gone ready : List Signal) (assignments : List Assignment) :
    Stable (fun given => drain ready (given.map (.after gone))) assignments := by
  generalize same : assignments.map (Waiting.after gone) = waiting
  -- The assignments left over wait for their operands less those used up. So the two runs come to
  -- the same assignments in the same order.
  fun_induction drain ready waiting generalizing gone assignments with
  | case1 waiting => simp [Stable, drain]
  | case2 source ready waiting released later ih =>
      have split := separate_after (source :: gone) assignments
      have released_eq : released = separate (assignments.map (.after (source :: gone))) := by
        simp only [released, releaseAll, ← same, List.map_map, Function.comp_def,
          Waiting.release_after]
      rw [released_eq, split] at ih
      simp only [drain_after]
      exact stable_proceed (ih (source :: gone) _ rfl)

theorem stable_plan (inputs flipflops : Nat) (assignments : List Assignment) :
    Stable (plan inputs flipflops) assignments := by
  have step := stable_proceed (stable_drain [] (announce ((free [] assignments).map (.after []))
    (sources inputs flipflops)) (blocked [] assignments))
  simpa only [Stable, plan_eq] using step

end Schedule

theorem Declaration.WellFormed.of_perm {header : Header} {assignments others : List Assignment}
    (wellFormed : WellFormed ⟨header, assignments⟩) (perm : others.Perm assignments) :
    WellFormed ⟨header, others⟩ where
  clocked := wellFormed.clocked
  ports_distinct := wellFormed.ports_distinct
  flipflops_distinct := wellFormed.flipflops_distinct
  targets_declared := fun assignment member =>
    wellFormed.targets_declared assignment (perm.mem_iff.mp member)
  operands_declared := fun assignment member =>
    wellFormed.operands_declared assignment (perm.mem_iff.mp member)
  targets_distinct := (perm.map _).nodup_iff.mpr wellFormed.targets_distinct
  expressions_nonempty := fun assignment member =>
    wellFormed.expressions_nonempty assignment (perm.mem_iff.mp member)
  outputs_assigned := by
    intro index bound
    obtain ⟨assignment, member, target⟩ := wellFormed.outputs_assigned index bound
    exact ⟨assignment, perm.mem_iff.mpr member, target⟩

/-- A resolved netlist is resolved from its own declaration, with the same evaluation order. -/
theorem Netlist.resolve_declaration {declaration : Declaration} {netlist : Netlist}
    (resolved : declaration.resolve = .ok netlist) : netlist.declaration.resolve = .ok netlist := by
  have wellFormed := Declaration.wellFormed_of_resolve resolved
  obtain ⟨_, perm, _⟩ := Declaration.resolve_eq_ok resolved
  rw [Declaration.resolve_of_wellFormed wellFormed] at resolved
  split at resolved
  · obtain rfl := Except.ok.inj resolved
    have again : Declaration.WellFormed ⟨declaration.toHeader, declaration.schedule.placed⟩ :=
      wellFormed.of_perm perm
    have stable : Declaration.schedule ⟨declaration.toHeader, declaration.schedule.placed⟩ =
        ⟨declaration.schedule.placed, []⟩ := Schedule.stable_plan _ _ declaration.assignments
    have done := Declaration.resolve_of_wellFormed again
    rw [stable] at done
    exact done
  · cases resolved

/-- An order that has been planned is planned once more without a change, and so resolving the
declaration of a resolved netlist gives the netlist back. -/
theorem planning_idempotent :
    (∀ inputs flipflops assignments order,
        (Schedule.plan inputs flipflops assignments).result = .ok order →
          (Schedule.plan inputs flipflops order).result = .ok order) ∧
      ∀ (declaration : Declaration) (netlist : Netlist), declaration.resolve = .ok netlist →
        netlist.declaration.resolve = .ok netlist := by
  refine ⟨?_, fun declaration netlist resolved => Netlist.resolve_declaration resolved⟩
  intro inputs flipflops assignments order planned
  obtain ⟨_, rfl⟩ := (Schedule.result_eq_ok_iff _ _).mp planned
  rw [Schedule.stable_plan inputs flipflops assignments]
  rfl

theorem planning_idempotent_tangled :
    Schedule.tangled ≠ Schedule.untangled ∧
      (Schedule.plan 2 1 Schedule.tangled).result = .ok Schedule.untangled ∧
      (Schedule.plan 2 1 Schedule.untangled).result = .ok Schedule.untangled ∧
      Declaration.ring.resolve = .ok .ring ∧ Netlist.ring.declaration.resolve = .ok .ring := by
  have planned : (Schedule.plan 2 1 Schedule.tangled).result = .ok Schedule.untangled := by
    decide +kernel
  have resolved : Declaration.ring.resolve = .ok .ring := by decide +kernel
  exact ⟨by decide, planned, planning_idempotent.1 _ _ _ _ planned, resolved,
    planning_idempotent.2 _ _ resolved⟩

end GateLevel
