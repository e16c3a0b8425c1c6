import GateLevel.Schedule
import Mathlib.Data.List.Basic
import Mathlib.Data.List.Forall2

/-! The work list kept by position: what every assignment still waits for stands at its place in a
list, and every look-up by position is one that could fail. None does, and the evaluation order is
the one that is planned without positions. -/

namespace GateLevel

def positions {α : Type} (test : α → Bool) : Nat → List α → List Nat
  | _, [] => []
  | offset, x :: rest =>
    if test x then offset :: positions test (offset + 1) rest
    else positions test (offset + 1) rest

section

variable {α : Type} {test : α → Bool}

theorem mem_positions {offset position : Nat} {list : List α} :
    position ∈ positions test offset list ↔
      ∃ index x, position = offset + index ∧ list[index]? = some x ∧ test x = true := by
  induction list generalizing offset with
  | nil => simp [positions]
  | cons first rest ih =>
      have later : position ∈ positions test (offset + 1) rest ↔
          ∃ index x, position = offset + (index + 1) ∧ (first :: rest)[index + 1]? = some x ∧
            test x = true := by
        simp only [ih, List.getElem?_cons_succ, Nat.add_right_comm offset 1, Nat.add_assoc]
      have split : position ∈ positions test offset (first :: rest) ↔
          (position = offset ∧ test first = true) ∨
            position ∈ positions test (offset + 1) rest := by
        simp only [positions]
        split <;> simp_all
      rw [split, later]
      constructor
      · rintro (⟨same, passed⟩ | ⟨index, x, found⟩)
        · exact ⟨0, first, same, rfl, passed⟩
        · exact ⟨index + 1, x, found⟩
      · rintro ⟨_ | index, x, same, found, passed⟩
        · obtain rfl : first = x := by simpa using found
          exact Or.inl ⟨same, passed⟩
        · exact Or.inr ⟨index, x, same, found, passed⟩

theorem nodup_positions (offset : Nat) (list : List α) : (positions test offset list).Nodup := by
  induction list generalizing offset with
  | nil => exact List.nodup_nil
  | cons first rest ih =>
      simp only [positions]
      split
      · refine List.nodup_cons.mpr ⟨?_, ih (offset + 1)⟩
        intro member
        obtain ⟨index, _, same, _⟩ := mem_positions.mp member
        omega
      · exact ih (offset + 1)

end

/-- What the assignments wait for, by position, the available signals, the one used first in front,
and the positions that have been placed. -/
structure Worklist where
  pending : List (List Signal)
  ready : List Signal
  order : List Nat

namespace Worklist

def without (source : Signal) (missing : List Signal) : List Signal :=
  missing.filter (· ≠ source)

section

variable (assignments : List Assignment)

def place (position : Nat) (work : Worklist) : Option Worklist :=
  match assignments[position]? with
  | none => none
  | some assignment =>
    match assignment.target with
    | .output index => some ⟨work.pending, .output index :: work.ready, work.order ++ [position]⟩
    | .flipflop _ => some ⟨work.pending, work.ready, work.order ++ [position]⟩

def strike (source : Signal) (position : Nat) (work : Worklist) : Option Worklist :=
  match work.pending[position]? with
  | none => none
  | some missing =>
    let left := without source missing
    let struck := ⟨work.pending.set position left, work.ready, work.order⟩
    if missing.contains source && left.isEmpty then place assignments position struck
    else some struck

def strikeAll (source : Signal) (readers : List Nat) (work : Worklist) : Option Worklist :=
  readers.foldlM (fun work position => strike assignments source position work) work

def weight (work : Worklist) : Nat := work.ready.length + work.pending.flatten.length

theorem length_flatten_set {lists : List (List Signal)} {position : Nat} {old : List Signal}
    (found : lists[position]? = some old) (new : List Signal) :
    (lists.set position new).flatten.length + old.length =
      lists.flatten.length + new.length := by
  induction lists generalizing position with
  | nil => simp at found
  | cons first rest ih =>
      cases position with
      | zero =>
          obtain rfl : first = old := by simpa using found
          simp only [List.set_cons_zero, List.flatten_cons, List.length_append]
          omega
      | succ position =>
          have later := ih (show rest[position]? = some old by simpa using found)
          simp only [List.set_cons_succ, List.flatten_cons, List.length_append]
          omega

theorem weight_place_le {assignments : List Assignment} {position : Nat} {work after : Worklist}
    (placed : place assignments position work = some after) : after.weight ≤ work.weight + 1 := by
  simp only [place] at placed
  split at placed
  · cases placed
  · split at placed <;> cases placed <;> simp only [weight, List.length_cons] <;> omega

/-- Placing makes one more signal available at most, and the assignment has ceased to wait for at
least one. -/
theorem weight_strike_le {assignments : List Assignment} {source : Signal} {position : Nat}
    {work after : Worklist} (struck : strike assignments source position work = some after) :
    after.weight ≤ work.weight := by
  simp only [strike] at struck
  split at struck
  · cases struck
  · rename_i missing found
    have total := length_flatten_set found (without source missing)
    split at struck
    · rename_i last
      simp only [Bool.and_eq_true, List.contains_iff_mem, List.isEmpty_iff] at last
      have waits := List.length_pos_of_mem last.1
      have bound := weight_place_le struck
      rw [last.2] at total bound
      simp only [weight, List.length_nil] at total bound ⊢
      omega
    · have shorter : (without source missing).length ≤ missing.length :=
        List.length_filter_le _ missing
      cases struck
      simp only [weight]
      omega

theorem weight_strikeAll_le {assignments : List Assignment} {source : Signal} {readers : List Nat}
    {work after : Worklist} (struck : strikeAll assignments source readers work = some after) :
    after.weight ≤ work.weight := by
  induction readers generalizing work with
  | nil =>
      cases struck
      exact Nat.le_refl _
  | cons position rest ih =>
      obtain ⟨middle, first, later⟩ := Option.bind_eq_some_iff.mp struck
      exact Nat.le_trans (ih later) (weight_strike_le first)

def drain : Worklist → Option Worklist
  | ⟨pending, [], order⟩ => some ⟨pending, [], order⟩
  | ⟨pending, source :: ready, order⟩ =>
    match _ : strikeAll assignments source (positions (·.operands.contains source) 0 assignments)
        ⟨pending, ready, order⟩ with
    | none => none
    | some work => drain work
termination_by work => work.weight
decreasing_by
  have bound := weight_strikeAll_le ‹_›
  simp only [weight, List.length_cons] at bound ⊢
  omega

def placeIdle (work : Worklist) : Option Worklist :=
  (positions (·.isEmpty) 0 work.pending).foldlM
    (fun work position => place assignments position work) work

end

def collect : List Nat → List (Option Assignment) → Option (List Assignment)
  | [], _ => some []
  | position :: rest, slots =>
    match slots[position]? with
    | none => none
    | some slot => (collect rest (slots.set position none)).map (slot.toList ++ ·)

def outcome (assignments : List Assignment) (work : Worklist) :
    Option (Except (List Target) (List Assignment)) :=
  match positions (!·.isEmpty) 0 work.pending with
  | [] => (collect work.order (assignments.map some)).map .ok
  | stuck => (stuck.mapM fun position => assignments[position]?.map (·.target)).map .error

def schedule (inputs flipflops : Nat) (assignments : List Assignment) :
    Option (Except (List Target) (List Assignment)) := do
  let work ← placeIdle assignments
    ⟨assignments.map (·.operands), Schedule.sources inputs flipflops, []⟩
  let work ← drain assignments work
  outcome assignments work

def waiting (assignments : List Assignment) (pending : List (List Signal)) : List Waiting :=
  (List.zipWith Waiting.mk assignments pending).filter (!·.isReady)

def Fits : List Assignment → List (List Signal) → Prop :=
  List.Forall₂ fun assignment missing => missing ⊆ assignment.operands

def isFreed (source : Signal) (missing : List Signal) : Bool :=
  !missing.isEmpty && (without source missing).isEmpty

theorem without_eq_self {source : Signal} {missing : List Signal} (absent : source ∉ missing) :
    without source missing = missing := by
  simp only [without, List.filter_eq_self, decide_eq_true_eq]
  rintro signal member rfl
  exact absent member

theorem isFreed_iff {source : Signal} {missing : List Signal} :
    isFreed source missing = (missing.contains source && (without source missing).isEmpty) := by
  by_cases present : source ∈ missing
  · have nonempty : missing ≠ [] := List.ne_nil_of_mem present
    simp [isFreed, present, nonempty]
  · rw [isFreed, without_eq_self present]
    simp [present]

theorem waiting_cons (assignment : Assignment) (rest : List Assignment) (missing : List Signal)
    (todo : List (List Signal)) :
    waiting (assignment :: rest) (missing :: todo) =
      if missing.isEmpty then waiting rest todo
      else ⟨assignment, missing⟩ :: waiting rest todo := by
  cases missing <;> simp [waiting, Waiting.isReady]

theorem releaseAll_cons (source : Signal) (entry : Waiting) (entries : List Waiting) :
    Schedule.releaseAll source (entry :: entries) =
      if (without source entry.missing).isEmpty then
        (entry.release source :: (Schedule.releaseAll source entries).1,
          (Schedule.releaseAll source entries).2)
      else ((Schedule.releaseAll source entries).1,
        entry.release source :: (Schedule.releaseAll source entries).2) := by
  have ready : (entry.release source).isReady = (without source entry.missing).isEmpty := rfl
  cases empty : (without source entry.missing).isEmpty <;>
    simp [Schedule.releaseAll, Schedule.separate, ready, empty]

theorem announce_cons (entry : Waiting) (entries : List Waiting) (ready : List Signal) :
    Schedule.announce (entry :: entries) ready =
      Schedule.announce entries (Schedule.announce [entry] ready) := by
  simp only [Schedule.announce]
  split <;> rfl

theorem place_eq {assignments : List Assignment} {position : Nat} {assignment : Assignment}
    (found : assignments[position]? = some assignment) (missing : List Signal) (work : Worklist) :
    place assignments position work =
      some ⟨work.pending, Schedule.announce [⟨assignment, missing⟩] work.ready,
        work.order ++ [position]⟩ := by
  simp only [place, found, Schedule.announce]
  cases assignment.target <;> rfl

/-- An assignment that does not read the signal is as if it had been visited. -/
theorem strike_eq {assignments : List Assignment} {position : Nat} {assignment : Assignment}
    (found : assignments[position]? = some assignment) (work : Worklist) {missing : List Signal}
    (present : work.pending[position]? = some missing) (subset : missing ⊆ assignment.operands)
    (source : Signal) :
    (if assignment.operands.contains source then strike assignments source position work
      else some work) =
      some ⟨work.pending.set position (without source missing),
        if isFreed source missing then Schedule.announce [⟨assignment, missing⟩] work.ready
        else work.ready,
        if isFreed source missing then work.order ++ [position] else work.order⟩ := by
  by_cases reads : source ∈ assignment.operands
  · simp only [List.contains_iff_mem, reads, if_true, strike, present, isFreed_iff]
    split
    · exact place_eq found missing _
    · rfl
  · have absent : source ∉ missing := fun member => reads (subset member)
    have kept : work.pending.set position missing = work.pending := by
      obtain ⟨bound, rfl⟩ := List.getElem?_eq_some_iff.mp present
      exact List.set_getElem_self bound
    simp [reads, isFreed_iff, without_eq_self absent, absent, kept]

/-- Visiting the readers of a signal does to the entries by position what releasing it does to
those that wait. -/
theorem strikeAll_eq (source : Signal) {back : List Assignment} {todo : List (List Signal)}
    (fits : Fits back todo) (front : List Assignment) (done : List (List Signal))
    (length : done.length = front.length) (ready : List Signal) (order : List Nat) :
    strikeAll (front ++ back) source
        (positions (·.operands.contains source) front.length back) ⟨done ++ todo, ready, order⟩ =
      some ⟨done ++ todo.map (without source),
        Schedule.announce (Schedule.releaseAll source (waiting back todo)).1 ready,
        order ++ positions (isFreed source) front.length todo⟩ := by
  induction fits generalizing front done ready order with
  | nil => simp [strikeAll, positions, waiting, Schedule.releaseAll, Schedule.separate,
      Schedule.announce]
  | @cons assignment missing rest todo subset _ ih =>
      have found : (front ++ assignment :: rest)[front.length]? = some assignment := by simp
      have present : (done ++ missing :: todo)[front.length]? = some missing := by simp [← length]
      have struck : (done ++ missing :: todo).set front.length (without source missing) =
          done ++ without source missing :: todo := by simp [← length]
      have first := strike_eq found ⟨done ++ missing :: todo, ready, order⟩ present subset source
      have later := ih (front ++ [assignment]) (done ++ [without source missing])
        (by simp [length])
      simp only [List.append_assoc, List.singleton_append, List.length_append,
        List.length_singleton] at later
      have split : strikeAll (front ++ assignment :: rest) source
          (positions (·.operands.contains source) front.length (assignment :: rest))
          ⟨done ++ missing :: todo, ready, order⟩ =
          (if assignment.operands.contains source then
            strike (front ++ assignment :: rest) source front.length
              ⟨done ++ missing :: todo, ready, order⟩
          else some ⟨done ++ missing :: todo, ready, order⟩).bind
            (strikeAll (front ++ assignment :: rest) source
              (positions (·.operands.contains source) (front.length + 1) rest)) := by
        simp only [positions]
        split <;> rfl
      rw [split, first, Option.bind_some, struck, later]
      simp only [waiting_cons, List.map_cons, positions]
      by_cases idle : missing.isEmpty = true
      · simp [isFreed, idle]
      · by_cases freed : (without source missing).isEmpty = true
        · have placed := announce_cons (Waiting.release source ⟨assignment, missing⟩)
            (Schedule.releaseAll source (waiting rest todo)).1 ready
          have target : Schedule.announce [Waiting.release source ⟨assignment, missing⟩] ready =
            Schedule.announce [⟨assignment, missing⟩] ready := rfl
          simp [isFreed, idle, freed, releaseAll_cons, placed, target]
        · simp [isFreed, idle, freed, releaseAll_cons]

theorem foldlM_place_eq {back : List Assignment} {todo : List (List Signal)}
    (fits : Fits back todo) (front : List Assignment) (work : Worklist) :
    (positions (·.isEmpty) front.length todo).foldlM
        (fun work position => place (front ++ back) position work) work =
      some ⟨work.pending,
        Schedule.announce (Schedule.separate (List.zipWith Waiting.mk back todo)).1 work.ready,
        work.order ++ positions (·.isEmpty) front.length todo⟩ := by
  induction fits generalizing front work with
  | nil => simp [positions, Schedule.separate, Schedule.announce]
  | @cons assignment missing rest todo subset _ ih =>
      have found : (front ++ assignment :: rest)[front.length]? = some assignment := by simp
      have placed := place_eq found missing work
      have later := ih (front ++ [assignment])
      simp only [List.append_assoc, List.singleton_append, List.length_append,
        List.length_singleton] at later
      have entries : (Schedule.separate (⟨assignment, missing⟩ ::
          List.zipWith Waiting.mk rest todo)).1 =
          if missing.isEmpty then
            ⟨assignment, missing⟩ :: (Schedule.separate (List.zipWith Waiting.mk rest todo)).1
          else (Schedule.separate (List.zipWith Waiting.mk rest todo)).1 := List.filter_cons
      rw [List.zipWith_cons_cons, entries]
      by_cases idle : missing.isEmpty = true
      · have announced := announce_cons ⟨assignment, missing⟩
          (Schedule.separate (List.zipWith Waiting.mk rest todo)).1 work.ready
        simp [positions, idle, placed, later, announced]
      · simp [positions, idle, later]

/-- The assignments at the positions that pass the test are those of the entries that do. -/
theorem map_positions (test : List Signal → Bool) {back : List Assignment}
    {todo : List (List Signal)} (fits : Fits back todo) (front : List Assignment) :
    (positions test front.length todo).map ((front ++ back)[·]?) =
      ((List.zipWith Waiting.mk back todo).filter (test ·.missing)).map (some ·.assignment) := by
  induction fits generalizing front with
  | nil => rfl
  | @cons assignment missing rest todo subset _ ih =>
      have later := ih (front ++ [assignment])
      simp only [List.append_assoc, List.singleton_append, List.length_append,
        List.length_singleton] at later
      by_cases passed : test missing = true
      · simp [positions, passed, later]
      · simp [positions, passed, later]

theorem Fits.without {assignments : List Assignment} {pending : List (List Signal)}
    (fits : Fits assignments pending) (source : Signal) :
    Fits assignments (pending.map (without source)) := by
  refine List.forall₂_map_right_iff.mpr (fits.imp ?_)
  intro assignment missing subset signal member
  exact subset (List.mem_filter.mp member).1

theorem releaseAll_waiting (source : Signal) {assignments : List Assignment}
    {pending : List (List Signal)} (fits : Fits assignments pending) :
    ((Schedule.releaseAll source (waiting assignments pending)).1.map (some ·.assignment) =
        ((List.zipWith Waiting.mk assignments pending).filter (isFreed source ·.missing)).map
          (some ·.assignment)) ∧
      (Schedule.releaseAll source (waiting assignments pending)).2 =
        waiting assignments (pending.map (without source)) := by
  induction fits with
  | nil => exact ⟨rfl, rfl⟩
  | @cons assignment missing rest todo _ _ ih =>
      obtain ⟨freed, kept⟩ := ih
      have released : Waiting.release source ⟨assignment, missing⟩ =
        ⟨assignment, without source missing⟩ := rfl
      rw [waiting_cons, List.map_cons, waiting_cons, List.zipWith_cons_cons, List.filter_cons]
      by_cases idle : missing.isEmpty = true
      · have still : (without source missing).isEmpty = true := by simp_all [without]
        simp only [isFreed, idle, still, Bool.not_true, Bool.false_and]
        exact ⟨freed, kept⟩
      · by_cases empty : (without source missing).isEmpty = true
        · simp [idle, isFreed, empty, releaseAll_cons, released, freed, kept]
        · simp [idle, isFreed, empty, releaseAll_cons, released, freed, kept]

structure Valid (assignments : List Assignment) (work : Worklist) : Prop where
  fits : Fits assignments work.pending
  distinct : work.order.Nodup
  done : ∀ position ∈ work.order, work.pending[position]? = some []

theorem Valid.strikeAll {assignments : List Assignment} {pending : List (List Signal)}
    {ready later : List Signal} {order : List Nat}
    (valid : Valid assignments ⟨pending, ready, order⟩) (source : Signal) :
    Valid assignments ⟨pending.map (without source), later,
      order ++ positions (isFreed source) 0 pending⟩ := by
  have freed : ∀ position ∈ positions (isFreed source) 0 pending, ∃ missing,
      pending[position]? = some missing ∧ missing ≠ [] ∧ without source missing = [] := by
    intro position member
    obtain ⟨index, missing, rfl, found, passed⟩ := mem_positions.mp member
    simp only [isFreed, Bool.and_eq_true, Bool.not_eq_true', List.isEmpty_eq_false_iff,
      List.isEmpty_iff] at passed
    exact ⟨missing, by simpa using found, passed⟩
  refine ⟨valid.fits.without source, ?_, ?_⟩
  · refine List.nodup_append.mpr ⟨valid.distinct, nodup_positions 0 pending, ?_⟩
    rintro position old _ new rfl
    obtain ⟨missing, found, nonempty, _⟩ := freed position new
    have empty := valid.done position old
    exact nonempty (Option.some.inj (found.symm.trans empty))
  · intro position member
    rw [List.getElem?_map]
    rcases List.mem_append.mp member with old | new
    · rw [valid.done position old]
      rfl
    · obtain ⟨missing, found, _, empty⟩ := freed position new
      rw [found, Option.map_some, empty]

theorem drain_eq {assignments : List Assignment} {work : Worklist}
    (valid : Valid assignments work) :
    ∃ final more, drain assignments work = some final ∧ Valid assignments final ∧
      final.order = work.order ++ more ∧
      more.map (assignments[·]?) =
        (Schedule.drain work.ready (waiting assignments work.pending)).placed.map some ∧
      (waiting assignments final.pending).map (·.assignment) =
        (Schedule.drain work.ready (waiting assignments work.pending)).stuck := by
  fun_induction drain assignments work with
  | case1 pending order =>
      exact ⟨_, [], rfl, valid, by simp, by simp [Schedule.drain], by simp [Schedule.drain]⟩
  | case2 pending source ready order failed =>
      have struck := strikeAll_eq source valid.fits [] [] rfl ready order
      simp only [List.nil_append, List.length_nil, failed] at struck
      cases struck
  | case3 pending source ready order work found ih =>
      have struck := strikeAll_eq source valid.fits [] [] rfl ready order
      simp only [List.nil_append, List.length_nil, found] at struck
      obtain rfl := Option.some.inj struck
      obtain ⟨final, more, drained, finalValid, appended, placed, stuck⟩ :=
        ih (valid.strikeAll source)
      obtain ⟨freed, kept⟩ := releaseAll_waiting source valid.fits
      have here := (map_positions (isFreed source) valid.fits []).trans freed.symm
      refine ⟨final, positions (isFreed source) 0 pending ++ more, drained, finalValid, ?_, ?_, ?_⟩
      · rw [appended, List.append_assoc]
      · rw [Schedule.drain, kept, List.map_append, List.map_append, ← placed, List.map_map]
        exact congrArg (· ++ _) here
      · rw [Schedule.drain, kept]
        exact stuck

theorem collect_eq {assignments : List Assignment} {order : List Nat} (distinct : order.Nodup)
    {slots : List (Option Assignment)} {placed : List Assignment}
    (found : order.map (assignments[·]?) = placed.map some)
    (full : ∀ position ∈ order, slots[position]? = assignments[position]?.map some) :
    collect order slots = some placed := by
  induction order generalizing slots placed with
  | nil =>
      obtain rfl : placed = [] := by simpa using found
      rfl
  | cons position rest ih =>
      rcases placed with _ | ⟨first, others⟩
      · cases found
      · simp only [List.map_cons, List.cons.injEq] at found
        obtain ⟨absent, distinct⟩ := List.nodup_cons.mp distinct
        have slot := full position (by simp)
        have later : collect rest (slots.set position none) = some others := by
          refine ih distinct found.2 fun other member => ?_
          have apart : position ≠ other := fun same => absent (same ▸ member)
          rw [List.getElem?_set_ne apart]
          exact full other (List.mem_cons_of_mem _ member)
        rw [found.1, Option.map_some] at slot
        simp [collect, slot, later]

theorem mapM_positions {assignments : List Assignment} {order : List Nat}
    {listed : List Assignment} (found : order.map (assignments[·]?) = listed.map some) :
    (order.mapM fun position => assignments[position]?.map (·.target)) =
      some (listed.map (·.target)) := by
  induction order generalizing listed with
  | nil =>
      obtain rfl : listed = [] := by simpa using found
      rfl
  | cons position rest ih =>
      rcases listed with _ | ⟨first, others⟩
      · cases found
      · simp only [List.map_cons, List.cons.injEq] at found
        simp [List.mapM_cons, found.1, ih found.2]

theorem outcome_eq {assignments : List Assignment} {work : Worklist}
    (valid : Valid assignments work) {placed : List Assignment}
    (found : work.order.map (assignments[·]?) = placed.map some) :
    outcome assignments work =
      some (Schedule.result
        ⟨placed, (waiting assignments work.pending).map (·.assignment)⟩) := by
  have left := map_positions (!·.isEmpty) valid.fits []
  have stuck : (positions (!·.isEmpty) 0 work.pending).map (assignments[·]?) =
      ((waiting assignments work.pending).map (·.assignment)).map some := by
    rw [List.map_map]
    exact left
  simp only [outcome]
  split
  · rename_i none
    rw [none] at stuck
    have empty : (waiting assignments work.pending).map (·.assignment) = [] := by
      simpa using stuck.symm
    rw [empty, collect_eq valid.distinct found]
    · rfl
    · intro position _
      rw [List.getElem?_map]
  · rename_i occupied
    have nonempty : waiting assignments work.pending ≠ [] := by
      intro empty
      rw [empty] at stuck
      exact occupied (by simpa using stuck)
    rw [mapM_positions stuck]
    simp [Schedule.result, nonempty]

theorem schedule_eq (inputs flipflops : Nat) (assignments : List Assignment) :
    schedule inputs flipflops assignments =
      some (Schedule.plan inputs flipflops assignments).result := by
  have fits : Fits assignments (assignments.map (·.operands)) := by
    refine List.forall₂_map_right_iff.mpr (List.forall₂_same.mpr ?_)
    exact fun assignment _ => List.Subset.refl _
  have entries : List.zipWith Waiting.mk assignments (assignments.map (·.operands)) =
      assignments.map .start := by
    rw [List.zipWith_map_right, List.zipWith_self]
    rfl
  have idle := foldlM_place_eq fits []
    ⟨assignments.map (·.operands), Schedule.sources inputs flipflops, []⟩
  have first := map_positions (·.isEmpty) fits []
  have valid : Valid assignments ⟨assignments.map (·.operands),
      Schedule.announce (Schedule.separate (assignments.map .start)).1
        (Schedule.sources inputs flipflops),
      positions (·.isEmpty) 0 (assignments.map (·.operands))⟩ := by
    refine ⟨fits, nodup_positions 0 _, ?_⟩
    intro position member
    obtain ⟨index, missing, rfl, found, empty⟩ := mem_positions.mp member
    rw [List.isEmpty_iff.mp empty] at found
    simpa using found
  obtain ⟨final, more, drained, finalValid, appended, placed, stuck⟩ := drain_eq valid
  have kept : waiting assignments (assignments.map (·.operands)) =
      (Schedule.separate (assignments.map .start)).2 := by
    rw [waiting, entries]
    rfl
  rw [entries] at idle first
  rw [kept] at placed stuck
  have order : final.order.map (assignments[·]?) =
      (Schedule.plan inputs flipflops assignments).placed.map some := by
    have start : (positions (·.isEmpty) 0 (assignments.map (·.operands))).map (assignments[·]?) =
        ((Schedule.separate (assignments.map .start)).1.map (·.assignment)).map some := by
      rw [List.map_map]
      exact first
    rw [appended, List.map_append, placed, start, Schedule.plan, List.map_append]
  have done := outcome_eq finalValid order
  rw [stuck] at done
  simp only [List.nil_append, List.length_nil] at idle
  simp only [schedule, placeIdle, idle, Option.bind_eq_bind, Option.bind_some, drained, done]
  rfl

end Worklist

end GateLevel
