import GateLevel.Proofs.Order
import Mathlib.Order.Bounds.Basic

/-! What a planned order is made of, and which assignments cannot be planned: those whose positions
lie outside the least set of positions that supply one another. -/

namespace GateLevel

/-- Every operand is known from the start or driven at an earlier position. -/
theorem Ordered.driven_earlier {known : Signal → Prop} {order : List Assignment}
    (ordered : Ordered known order) {position : Nat} {assignment : Assignment}
    (found : order[position]? = some assignment) {signal : Signal}
    (read : signal ∈ assignment.operands) :
    known signal ∨ ∃ earlier < position, ∃ driver, order[earlier]? = some driver ∧
      driver.Drives signal := by
  induction order generalizing known position with
  | nil => simp at found
  | cons first rest ih =>
      cases position with
      | zero =>
          obtain rfl : first = assignment := by simpa using found
          exact Or.inl (ordered.1 signal read)
      | succ position =>
          have later : rest[position]? = some assignment := by simpa using found
          rcases ih ordered.2 later with (old | driven) | ⟨earlier, before, driver, placed, driven⟩
          · exact Or.inl old
          · exact Or.inr ⟨0, Nat.succ_pos position, first, rfl, driven⟩
          · exact Or.inr ⟨earlier + 1, Nat.succ_lt_succ before, driver, placed, driven⟩

namespace Schedule

theorem result_eq_ok_iff (schedule : Schedule) (order : List Assignment) :
    schedule.result = .ok order ↔ schedule.stuck = [] ∧ schedule.placed = order := by
  simp only [result, List.isEmpty_iff]
  split
  · rename_i empty
    simp [empty]
  · rename_i occupied
    simp [occupied]

theorem result_eq_error_iff (schedule : Schedule) (targets : List Target) :
    schedule.result = .error targets ↔
      schedule.stuck ≠ [] ∧ schedule.stuck.map (·.target) = targets := by
  simp only [result, List.isEmpty_iff]
  split
  · rename_i empty
    simp [empty]
  · rename_i occupied
    simp [occupied]

section

variable (inputs flipflops : Nat) (assignments : List Assignment)

theorem map_separate_fst :
    (separate (assignments.map .start)).1.map (·.assignment) =
      assignments.filter (·.operands.isEmpty) := by
  rw [separate, List.filter_map]
  exact map_assignment_start _

theorem map_separate_snd :
    (separate (assignments.map .start)).2.map (·.assignment) =
      assignments.filter (!·.operands.isEmpty) := by
  show ((assignments.map Waiting.start).filter (!·.isReady)).map (·.assignment) = _
  rw [List.filter_map]
  exact map_assignment_start _

/-- What is placed at once reads nothing, and all that is placed later reads something. -/
theorem exists_placed_later :
    ∃ later, (plan inputs flipflops assignments).placed =
        assignments.filter (·.operands.isEmpty) ++ later ∧
      ∀ assignment ∈ later, assignment.operands ≠ [] := by
  refine ⟨_, congrArg (· ++ _) (map_separate_fst assignments), ?_⟩
  intro assignment member
  have waited := (drain_perm _ _).mem_iff.mp (List.mem_append_left _ member)
  rw [map_separate_snd, List.mem_filter] at waited
  simpa using waited.2

/-- The signal is known from the start or driven at one of the places. -/
def Supplied (places : Set Nat) (signal : Signal) : Prop :=
  Seeded inputs flipflops signal ∨ ∃ position ∈ places, ∃ driver,
    assignments[position]? = some driver ∧ driver.Drives signal

/-- The set has every position whose operands are all supplied from the set. -/
def Saturated (places : Set Nat) : Prop :=
  ∀ position assignment, assignments[position]? = some assignment →
    (∀ signal ∈ assignment.operands, Supplied inputs flipflops assignments places signal) →
    position ∈ places

/-- The positions that belong to all saturated sets. -/
def derivable : Set Nat :=
  {position | ∀ places, Saturated inputs flipflops assignments places → position ∈ places}

end

variable {inputs flipflops : Nat} {assignments : List Assignment}

theorem Supplied.mono {places more : Set Nat} {signal : Signal}
    (supplied : Supplied inputs flipflops assignments places signal) (included : places ⊆ more) :
    Supplied inputs flipflops assignments more signal :=
  supplied.imp_right fun ⟨position, member, driven⟩ => ⟨position, included member, driven⟩

/-- A saturated set supplies whatever can become available. -/
theorem Saturated.supplied {places : Set Nat}
    (saturated : Saturated inputs flipflops assignments places) {signal : Signal}
    (available : Available inputs flipflops assignments signal) :
    Supplied inputs flipflops assignments places signal := by
  induction available with
  | seed seeded => exact Or.inl seeded
  | @output driver index member target _ ih =>
      obtain ⟨position, found⟩ := List.mem_iff_getElem?.mp member
      exact Or.inr ⟨position, saturated position driver found ih, driver, found, index, target, rfl⟩

variable (inputs flipflops assignments)

theorem saturated_placeable :
    Saturated inputs flipflops assignments {position | ∃ assignment,
      assignments[position]? = some assignment ∧
        Placeable inputs flipflops assignments assignment} := by
  intro position assignment found supplied
  refine ⟨assignment, found, ?_⟩
  intro signal read
  rcases supplied signal read with
    seeded | ⟨place, ⟨other, present, placeable⟩, driver, driverFound, index, target, rfl⟩
  · exact .seed seeded
  · obtain rfl : other = driver := Option.some.inj (present.symm.trans driverFound)
    exact .output (List.mem_of_getElem? present) target placeable

theorem mem_derivable_iff (position : Nat) :
    position ∈ derivable inputs flipflops assignments ↔ ∃ assignment,
      assignments[position]? = some assignment ∧
        Placeable inputs flipflops assignments assignment := by
  constructor
  · intro derived
    exact derived _ (saturated_placeable inputs flipflops assignments)
  · rintro ⟨assignment, found, placeable⟩ places saturated
    exact saturated position assignment found fun signal read =>
      saturated.supplied (placeable signal read)

theorem isLeast_derivable :
    IsLeast {places | Saturated inputs flipflops assignments places}
      (derivable inputs flipflops assignments) := by
  refine ⟨?_, fun places saturated position derived => derived places saturated⟩
  intro position assignment found supplied places saturated
  refine saturated position assignment found fun signal read => ?_
  exact (supplied signal read).mono fun other derived => derived places saturated

open Classical in
theorem targets_stuck :
    (plan inputs flipflops assignments).stuck.map (·.target) =
      (assignments.zipIdx.filter fun entry =>
        entry.2 ∉ derivable inputs flipflops assignments).map (·.1.target) := by
  have outside : assignments.zipIdx.filter
        (fun entry => entry.2 ∉ derivable inputs flipflops assignments) =
      assignments.zipIdx.filter
        ((¬ Placeable inputs flipflops assignments ·) ∘ Prod.fst) := by
    apply List.filter_congr
    rintro ⟨assignment, position⟩ member
    have found := List.mem_zipIdx_iff_getElem?.mp member
    simp [mem_derivable_iff, found]
  have first : (assignments.zipIdx.filter
        ((¬ Placeable inputs flipflops assignments ·) ∘ Prod.fst)).map (·.1.target) =
      ((assignments.zipIdx.map Prod.fst).filter
        (¬ Placeable inputs flipflops assignments ·)).map (·.target) := by
    rw [List.filter_map, List.map_map]
    rfl
  rw [plan_stuck, outside, first, List.zipIdx_map_fst]

theorem stuck_eq_nil_iff :
    (plan inputs flipflops assignments).stuck = [] ↔
      ∀ position < assignments.length, position ∈ derivable inputs flipflops assignments := by
  rw [plan_stuck, List.filter_eq_nil_iff]
  simp only [decide_eq_true_eq, not_not]
  constructor
  · intro placeable position bound
    rw [mem_derivable_iff]
    exact ⟨_, List.getElem?_eq_getElem bound, placeable _ (List.getElem_mem bound)⟩
  · intro derived assignment member
    obtain ⟨position, bound, found⟩ := List.mem_iff_getElem.mp member
    obtain ⟨other, present, placeable⟩ := (mem_derivable_iff _ _ _ _).mp (derived position bound)
    rw [List.getElem?_eq_getElem bound, found] at present
    exact Option.some.inj present ▸ placeable

variable {inputs flipflops assignments}

/-- A planned order has every assignment of the list once. Those that read nothing come first, as
they stood, and each of the others reads signals that are known from the start or outputs that are
driven at an earlier position. -/
theorem order_sound {order : List Assignment}
    (planned : (plan inputs flipflops assignments).result = .ok order) :
    order.Perm assignments ∧
      (∃ later, order = assignments.filter (·.operands.isEmpty) ++ later ∧
        ∀ assignment ∈ later, assignment.operands ≠ []) ∧
      ∀ (position : Nat) (assignment : Assignment), order[position]? = some assignment →
        ∀ signal ∈ assignment.operands, Seeded inputs flipflops signal ∨
          ∃ earlier < position, ∃ (driver : Assignment) (index : Nat),
            order[earlier]? = some driver ∧ driver.target = .output index ∧
              signal = .output index := by
  obtain ⟨empty, rfl⟩ := (result_eq_ok_iff _ _).mp planned
  have perm := plan_perm inputs flipflops assignments
  rw [empty, List.append_nil] at perm
  refine ⟨perm, exists_placed_later inputs flipflops assignments, ?_⟩
  intro position assignment found signal read
  refine ((plan_ordered inputs flipflops assignments).driven_earlier found read).imp_right ?_
  rintro ⟨earlier, before, driver, placed, index, target, same⟩
  exact ⟨earlier, before, driver, index, placed, target, same⟩

def tangled : List Assignment := [
  ⟨.output 1, [.signal (.output 0), .signal (.output 0), .gate (.binary .and)]⟩,
  ⟨.output 0, [.signal (.input 1), .gate .not]⟩,
  ⟨.flipflop 5, [.signal (.output 9), .signal (.flipflop 0), .gate (.binary .or)]⟩,
  ⟨.output 0, [.gate .not]⟩,
  ⟨.output 9, [.signal (.output 1)]⟩]

def untangled : List Assignment := ([3, 0, 4, 2, 1] : List Nat).filterMap (tangled[·]?)

theorem order_sound_tangled :
    (plan 2 1 tangled).result = .ok untangled ∧ untangled.Perm tangled ∧
      ∃ earlier < 3, ∃ (driver : Assignment) (index : Nat),
        untangled[earlier]? = some driver ∧ driver.target = .output index ∧
          Signal.output 9 = .output index := by
  have planned : (plan 2 1 tangled).result = .ok untangled := by decide +kernel
  obtain ⟨perm, _, earlier⟩ := order_sound planned
  refine ⟨planned, perm, (earlier 3 _ rfl (.output 9) (by decide)).resolve_left ?_⟩
  rintro ⟨⟩

variable (inputs flipflops assignments)

open Classical in
/-- An order is planned exactly if the least saturated set has every position. If not, the targets
at the positions outside it are reported, as they stood. -/
theorem result_iff_derivable :
    IsLeast {places | Saturated inputs flipflops assignments places}
        (derivable inputs flipflops assignments) ∧
      ((∃ order, (plan inputs flipflops assignments).result = .ok order) ↔
        ∀ position < assignments.length, position ∈ derivable inputs flipflops assignments) ∧
      ∀ targets, (plan inputs flipflops assignments).result = .error targets ↔
        (∃ position < assignments.length, position ∉ derivable inputs flipflops assignments) ∧
          targets = (assignments.zipIdx.filter fun entry =>
            entry.2 ∉ derivable inputs flipflops assignments).map (·.1.target) := by
  refine ⟨isLeast_derivable _ _ _, ?_, fun targets => ?_⟩
  · rw [← stuck_eq_nil_iff]
    simp only [result_eq_ok_iff, exists_and_left, exists_eq', and_true]
  · have outside : (∃ position < assignments.length,
        position ∉ derivable inputs flipflops assignments) ↔
        (plan inputs flipflops assignments).stuck ≠ [] := by
      simp [stuck_eq_nil_iff]
    rw [result_eq_error_iff, outside, targets_stuck, @eq_comm _ targets]

end Schedule

end GateLevel
