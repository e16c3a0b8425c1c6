import GateLevel.Graph.Cone
import Mathlib.Data.List.Basic

/-! Absorbing cones round by round ends, in whatever sequence each round takes the reuses, with
the least cones that contain the given ones and respect every reuse. -/

namespace GateLevel

namespace Cone

theorem not_mem_empty (index : Nat) : index ∉ empty :=
  List.not_mem_nil

theorem ext_mem {first second : Cone}
    (same : ∀ index, index ∈ first ↔ index ∈ second) : first = second := by
  obtain ⟨inputs, ascending⟩ := first
  obtain ⟨others, otherAscending⟩ := second
  have perm : inputs.Perm others := by
    apply (List.perm_ext_iff_of_nodup _ _).mpr same
    · exact ascending.imp fun below => Nat.ne_of_lt below
    · exact otherAscending.imp fun below => Nat.ne_of_lt below
  obtain rfl : inputs = others := by
    apply perm.eq_of_pairwise _ ascending otherAscending
    intro one two _ _ below above
    omega
  rfl

end Cone

namespace Cones

theorem cone_replace (target other : Target) (cone : Cone) (cones : Cones) :
    (cones.replace target cone).cone other = if other = target then cone else cones.cone other := by
  simp only [Cones.cone, find?_replace]
  split <;> rfl

theorem cone_of_find? {cones : Cones} {target : Target} {cone : Cone}
    (found : cones.find? target = some cone) : cones.cone target = cone := by
  simp [Cones.cone, found]

theorem not_mem_cone_of_find? {cones : Cones} {target : Target}
    (absent : cones.find? target = none) (index : Nat) : index ∉ cones.cone target := by
  simp [Cones.cone, absent, Cone.not_mem_empty]

theorem mem_cone_add (index : Nat) (target other : Target) (cones : Cones) (input : Nat) :
    input ∈ (cones.add index target).cone other ↔
      input ∈ cones.cone other ∨ (other = target ∧ input = index) := by
  simp only [add]
  by_cases present : index ∈ cones.cone target
  · rw [if_pos (by simpa [Membership.mem] using present)]
    constructor
    · exact Or.inl
    · rintro (old | ⟨rfl, rfl⟩)
      · exact old
      · exact present
  · rw [if_neg (by simpa [Membership.mem] using present), cone_replace]
    split
    · rename_i same
      subst same
      simp only [Cone.mem_insert, true_and]
      exact or_comm
    · rename_i different
      simp [different]

theorem mem_cone_absorb (cones : Cones) (reuse : Reuse) (target : Target) (index : Nat) :
    index ∈ (cones.absorb reuse).cone target ↔ index ∈ cones.cone target ∨
      (target = reuse.target ∧ index ∈ cones.cone (.flipflop reuse.flipflop)) := by
  simp only [absorb]
  cases found : cones.find? (.flipflop reuse.flipflop) with
  | none => simp [not_mem_cone_of_find? found]
  | some cone =>
      simp only [cone_replace, cone_of_find? found]
      split
      · rename_i same
        simp [Cone.mem_union, same]
      · rename_i different
        simp [different]

theorem holds_iff (cones : Cones) (reuse : Reuse) :
    cones.holds reuse = true ↔ ∀ index, index ∈ cones.cone (.flipflop reuse.flipflop) →
      index ∈ cones.cone reuse.target := by
  simp only [holds]
  cases found : cones.find? (.flipflop reuse.flipflop) with
  | none => simp [not_mem_cone_of_find? found]
  | some cone => simp only [cone_of_find? found, Cone.isSubset_iff]

def ClosedAt (reuses : List Reuse) (cones : Cones) (index : Nat) : Prop :=
  ∀ reuse ∈ reuses, index ∈ cones.cone (.flipflop reuse.flipflop) → index ∈ cones.cone reuse.target

theorem closedAt_cons (reuse : Reuse) (rest : List Reuse) (cones : Cones) (index : Nat) :
    ClosedAt (reuse :: rest) cones index ↔
      (index ∈ cones.cone (.flipflop reuse.flipflop) → index ∈ cones.cone reuse.target) ∧
        ClosedAt rest cones index :=
  List.forall_mem_cons

theorem closedAt_congr {reuses others : List Reuse} {cones later : Cones} {index : Nat}
    (sameReuses : ∀ reuse, reuse ∈ others ↔ reuse ∈ reuses)
    (sameCones : ∀ target, index ∈ later.cone target ↔ index ∈ cones.cone target) :
    ClosedAt others later index ↔ ClosedAt reuses cones index := by
  simp only [ClosedAt, sameReuses, sameCones]

def absorbStep (state : Cones × Bool) (reuse : Reuse) : Cones × Bool :=
  (state.1.absorb reuse, state.2 || !state.1.holds reuse)

theorem absorbAll_eq_foldl (reuses : List Reuse) (cones : Cones) :
    cones.absorbAll reuses = reuses.foldl absorbStep (cones, false) := rfl

theorem foldl_absorbStep_fst (reuses : List Reuse) (cones : Cones) (first second : Bool) :
    (reuses.foldl absorbStep (cones, first)).1 = (reuses.foldl absorbStep (cones, second)).1 := by
  induction reuses generalizing cones first second with
  | nil => rfl
  | cons reuse rest ih => exact ih (cones.absorb reuse) _ _

theorem absorbAll_cons (reuse : Reuse) (rest : List Reuse) (cones : Cones) :
    (cones.absorbAll (reuse :: rest)).1 = ((cones.absorb reuse).absorbAll rest).1 :=
  foldl_absorbStep_fst rest (cones.absorb reuse) _ _

theorem absorbAll_unchanged_iff (reuses : List Reuse) (cones : Cones) :
    (cones.absorbAll reuses).2 = false ↔ ∀ index, ClosedAt reuses cones index := by
  have general : ∀ (reuses : List Reuse) (cones : Cones) (before : Bool),
      (reuses.foldl absorbStep (cones, before)).2 = false ↔
        before = false ∧ ∀ index, ClosedAt reuses cones index := by
    intro reuses
    induction reuses with
    | nil => simp [ClosedAt]
    | cons reuse rest ih =>
        intro cones before
        rw [List.foldl_cons, absorbStep, ih]
        by_cases respected : cones.holds reuse = true
        · have holds := (cones.holds_iff reuse).mp respected
          have same (index : Nat) : ClosedAt rest (cones.absorb reuse) index ↔
              ClosedAt rest cones index := by
            refine closedAt_congr (fun _ => Iff.rfl) fun target => ?_
            rw [mem_cone_absorb]
            exact or_iff_left_of_imp fun gained => gained.1 ▸ holds index gained.2
          simp only [respected, Bool.not_true, Bool.or_false, same, closedAt_cons, forall_and]
          exact and_congr_right fun _ => ⟨fun closed => ⟨holds, closed⟩, And.right⟩
        · have broken : ¬ ∀ index, ClosedAt (reuse :: rest) cones index := fun closed =>
            respected ((cones.holds_iff reuse).mpr fun index => closed index reuse (by simp))
          simp [respected, broken]
  rw [absorbAll_eq_foldl, general]
  simp

theorem mem_absorbAll_of_mem {reuses : List Reuse} {cones : Cones} {target : Target}
    {index : Nat} (present : index ∈ cones.cone target) :
    index ∈ (cones.absorbAll reuses).1.cone target := by
  induction reuses generalizing cones with
  | nil => exact present
  | cons reuse rest ih =>
      rw [absorbAll_cons]
      exact ih ((mem_cone_absorb _ _ _ _).mpr (Or.inl present))

theorem mem_absorbAll_of_reuse {reuses : List Reuse} {cones : Cones} {reuse : Reuse}
    {index : Nat} (member : reuse ∈ reuses)
    (present : index ∈ cones.cone (.flipflop reuse.flipflop)) :
    index ∈ (cones.absorbAll reuses).1.cone reuse.target := by
  induction reuses generalizing cones with
  | nil => simp at member
  | cons first rest ih =>
      rw [absorbAll_cons]
      rcases List.mem_cons.mp member with rfl | later
      · exact mem_absorbAll_of_mem ((mem_cone_absorb _ _ _ _).mpr (Or.inr ⟨rfl, present⟩))
      · exact ih later ((mem_cone_absorb _ _ _ _).mpr (Or.inl present))

theorem absorbAll_least {reuses : List Reuse} {cones : Cones} {index : Nat}
    {family : Target → Prop} (contains : ∀ target, index ∈ cones.cone target → family target)
    (respects : ∀ reuse ∈ reuses, family (.flipflop reuse.flipflop) → family reuse.target) :
    ∀ target, index ∈ (cones.absorbAll reuses).1.cone target → family target := by
  induction reuses generalizing cones with
  | nil => exact contains
  | cons reuse rest ih =>
      rw [absorbAll_cons]
      refine ih ?_ fun later member => respects later (List.mem_cons_of_mem _ member)
      intro target gained
      rcases (mem_cone_absorb _ _ _ _).mp gained with old | ⟨rfl, given⟩
      · exact contains target old
      · exact respects reuse (by simp) (contains _ given)

/-- The targets that an input gets to along reuses, starting from the cones that have it. -/
inductive Flows (reuses : List Reuse) (cones : Cones) (index : Nat) : Target → Prop
  | start {target} : index ∈ cones.cone target → Flows reuses cones index target
  | pass {reuse} : reuse ∈ reuses → Flows reuses cones index (.flipflop reuse.flipflop) →
      Flows reuses cones index reuse.target

theorem mem_cone_of_flows {reuses : List Reuse} {cones : Cones} {index : Nat}
    (closed : ClosedAt reuses cones index) {target : Target}
    (flows : Flows reuses cones index target) : index ∈ cones.cone target := by
  induction flows with
  | start present => exact present
  | pass member _ before => exact closed _ member before

section

variable {reuses : List Reuse} {order : Nat → List Reuse}
  (same : ∀ round reuse, reuse ∈ order round ↔ reuse ∈ reuses)

include same

theorem flows_absorbAll_iff (round : Nat) (cones : Cones) (index : Nat) (target : Target) :
    Flows reuses (cones.absorbAll (order round)).1 index target ↔
      Flows reuses cones index target := by
  constructor
  · intro flows
    induction flows with
    | start present =>
        refine absorbAll_least (fun target own => .start own) ?_ _ present
        intro reuse member before
        exact .pass ((same round reuse).mp member) before
    | pass member _ ih => exact .pass member ih
  · intro flows
    induction flows with
    | start present => exact .start (mem_absorbAll_of_mem present)
    | pass member _ ih => exact .pass member ih

theorem closedAt_absorbAll {cones : Cones} {index : Nat} (round : Nat)
    (closed : ClosedAt reuses cones index) :
    ClosedAt reuses (cones.absorbAll (order round)).1 index := by
  refine (closedAt_congr (fun _ => Iff.rfl) fun target => ⟨?_, mem_absorbAll_of_mem⟩).mpr closed
  refine absorbAll_least (fun _ own => own) ?_ target
  intro reuse member
  exact closed reuse ((same round reuse).mp member)

theorem mem_closeFrom_iff {round fuel : Nat} {cones closed : Cones}
    (ended : cones.closeFrom order round fuel = some closed) (index : Nat) (target : Target) :
    index ∈ closed.cone target ↔ Flows reuses cones index target := by
  induction fuel generalizing round cones with
  | zero => simp [closeFrom] at ended
  | succ fuel ih =>
      simp only [closeFrom] at ended
      rw [← flows_absorbAll_iff same round cones]
      cases changed : (cones.absorbAll (order round)).2 with
      | true =>
          rw [changed, if_pos rfl] at ended
          exact ih ended
      | false =>
          rw [changed, if_neg (by simp)] at ended
          rw [← Option.some.inj ended]
          have before := (absorbAll_unchanged_iff _ _).mp changed index
          rw [closedAt_congr (same round) fun _ => Iff.rfl] at before
          exact ⟨.start, mem_cone_of_flows (closedAt_absorbAll same round before)⟩

end

def passed (reuses : List Reuse) (cones : Cones) (index : Nat) : Nat :=
  reuses.countP fun reuse => (cones.cone reuse.target).inputs.contains index

theorem countP_lt_countP {α : Type} {before after : α → Bool} {list : List α}
    (kept : ∀ x ∈ list, before x = true → after x = true)
    (gained : ∃ x ∈ list, before x = false ∧ after x = true) :
    list.countP before < list.countP after := by
  induction list with
  | nil => simp at gained
  | cons first rest ih =>
      have restKept := fun x member => kept x (List.mem_cons_of_mem first member)
      have bound := List.countP_mono_left restKept
      obtain ⟨x, member, fresh, present⟩ := gained
      rcases List.mem_cons.mp member with rfl | later
      · simp only [List.countP_cons, fresh, present, if_true]
        simp
        omega
      · have strict := ih restKept ⟨x, later, fresh, present⟩
        have firstKept := kept first (by simp)
        simp only [List.countP_cons]
        cases old : before first with
        | true =>
            simp only [firstKept old, if_true]
            omega
        | false =>
            cases after first <;> simp <;> omega

section

variable {reuses : List Reuse} {order : Nat → List Reuse}
  (same : ∀ round reuse, reuse ∈ order round ↔ reuse ∈ reuses)

include same

theorem passed_lt_passed {cones : Cones} {index : Nat} (round : Nat)
    (broken : ¬ ClosedAt reuses cones index) :
    passed reuses cones index < passed reuses (cones.absorbAll (order round)).1 index := by
  simp only [ClosedAt, not_forall] at broken
  obtain ⟨reuse, member, present, absent⟩ := broken
  apply countP_lt_countP
  · intro other _ had
    simp only [List.contains_iff_mem] at had ⊢
    exact mem_absorbAll_of_mem had
  · refine ⟨reuse, member, ?_, ?_⟩
    · rw [← Bool.not_eq_true, List.contains_iff_mem]
      exact absent
    · rw [List.contains_iff_mem]
      exact mem_absorbAll_of_reuse ((same round reuse).mpr member) present

/-- Enough rounds are left if every input that breaks a reuse has fewer reuses still to pass. -/
theorem exists_closeFrom {fuel : Nat} (round : Nat) (cones : Cones)
    (enough : ∀ index, ClosedAt reuses cones index ∨
      reuses.length ≤ passed reuses cones index + fuel) :
    ∃ closed, cones.closeFrom order round (fuel + 1) = some closed := by
  induction fuel generalizing round cones with
  | zero =>
      have closed : ∀ index, ClosedAt (order round) cones index := by
        intro index
        rw [closedAt_congr (same round) fun _ => Iff.rfl]
        rcases enough index with closed | all
        · exact closed
        · intro reuse member _
          have whole := List.countP_eq_length.mp (Nat.le_antisymm List.countP_le_length all)
          simpa [Membership.mem] using whole reuse member
      simp only [closeFrom, (absorbAll_unchanged_iff _ _).mpr closed]
      exact ⟨_, rfl⟩
  | succ fuel ih =>
      rw [closeFrom]
      split
      rename_i next changed ran
      split
      · apply ih
        intro index
        rw [show next = (cones.absorbAll (order round)).1 by rw [ran]]
        by_cases closed : ClosedAt reuses cones index
        · exact Or.inl (closedAt_absorbAll same round closed)
        · have more := passed_lt_passed same round closed
          have bound := (enough index).resolve_left closed
          right
          omega
      · exact ⟨_, rfl⟩

theorem exists_closeFrom_length (cones : Cones) :
    ∃ closed, cones.closeFrom order 0 (reuses.length + 1) = some closed :=
  exists_closeFrom same 0 cones fun index =>
    Or.inr (Nat.le_add_left reuses.length (passed reuses cones index))

end

/-- Closing carries every input as far as it flows. -/
theorem mem_close_iff (reuses : List Reuse) (cones : Cones) (index : Nat) (target : Target) :
    index ∈ (cones.close reuses).cone target ↔ Flows reuses cones index target := by
  have same : ∀ (round : Nat) (reuse : Reuse), reuse ∈ (fun _ => reuses) round ↔ reuse ∈ reuses :=
    fun _ _ => Iff.rfl
  obtain ⟨closed, ended⟩ := exists_closeFrom_length same cones
  rw [close, ended, Option.getD_some]
  exact mem_closeFrom_iff same ended index target

def Proper (cones : Cones) : Prop :=
  ∀ target cone, cones.find? target = some cone → ∃ index, index ∈ cone

theorem Proper.isSome_iff {cones : Cones} (proper : cones.Proper) (target : Target) :
    (cones.find? target).isSome ↔ ∃ index, index ∈ cones.cone target := by
  cases found : cones.find? target with
  | none => simp [not_mem_cone_of_find? found]
  | some cone => simpa [cone_of_find? found] using proper target cone found

theorem Proper.replace {cones : Cones} (proper : cones.Proper) {target : Target} {cone : Cone}
    {index : Nat} (member : index ∈ cone) : (cones.replace target cone).Proper := by
  intro other found present
  rw [find?_replace] at present
  split at present
  · rw [← Option.some.inj present]
    exact ⟨index, member⟩
  · exact proper other found present

theorem Proper.add {cones : Cones} (proper : cones.Proper) (index : Nat) (target : Target) :
    (cones.add index target).Proper := by
  simp only [Cones.add]
  split
  · exact proper
  · exact proper.replace ((Cone.mem_insert index index _).mpr (Or.inl rfl))

theorem Proper.absorb {cones : Cones} (proper : cones.Proper) (reuse : Reuse) :
    (cones.absorb reuse).Proper := by
  simp only [Cones.absorb]
  split
  · exact proper
  · rename_i cone found
    obtain ⟨index, member⟩ := proper _ cone found
    exact proper.replace ((Cone.mem_union _ _ index).mpr (Or.inr member))

theorem Proper.absorbAll {cones : Cones} (proper : cones.Proper) (reuses : List Reuse) :
    (cones.absorbAll reuses).1.Proper := by
  induction reuses generalizing cones with
  | nil => exact proper
  | cons reuse rest ih =>
      rw [absorbAll_cons]
      exact ih (proper.absorb reuse)

theorem Proper.closeFrom {order : Nat → List Reuse} {round fuel : Nat} {cones closed : Cones}
    (proper : cones.Proper) (ended : cones.closeFrom order round fuel = some closed) :
    closed.Proper := by
  induction fuel generalizing round cones with
  | zero => simp [Cones.closeFrom] at ended
  | succ fuel ih =>
      have next := proper.absorbAll (order round)
      simp only [Cones.closeFrom] at ended
      split at ended
      · exact ih next ended
      · exact Option.some.inj ended ▸ next

theorem Proper.close {cones : Cones} (proper : cones.Proper) (reuses : List Reuse) :
    (cones.close reuses).Proper := by
  simp only [Cones.close]
  cases ended : cones.closeFrom (fun _ => reuses) 0 (reuses.length + 1) with
  | none => exact proper
  | some closed => exact proper.closeFrom ended

theorem Proper.foldl_add {cones : Cones} (proper : cones.Proper) (input : Nat)
    (under : List Target) :
    (under.foldl (fun cones target => cones.add input target) cones).Proper := by
  induction under generalizing cones with
  | nil => exact proper
  | cons first rest ih => exact ih (proper.add input first)

theorem mem_foldl_add_iff (input : Nat) (under : List Target) (cones : Cones) (target : Target)
    (index : Nat) :
    index ∈ (under.foldl (fun cones target => cones.add input target) cones).cone target ↔
      index ∈ cones.cone target ∨ (target ∈ under ∧ index = input) := by
  induction under generalizing cones with
  | nil => simp
  | cons first rest ih =>
      rw [List.foldl_cons, ih, mem_cone_add, List.mem_cons]
      grind

theorem mem_cone_ofSightings_iff (sightings : List Sighting) (target : Target) (index : Nat) :
    index ∈ (ofSightings sightings).cone target ↔
      ∃ trail under, Sighting.input index trail under ∈ sightings ∧ target ∈ under := by
  induction sightings with
  | nil => simp [ofSightings, Cones.cone, find?, empty, Cone.not_mem_empty]
  | cons sighting rest ih =>
      cases sighting with
      | input input trail under =>
          simp only [ofSightings, mem_foldl_add_iff, ih, List.mem_cons, Sighting.input.injEq]
          grind
      | reuse flipflop under => simp [ofSightings, ih]

theorem proper_ofSightings (sightings : List Sighting) : (ofSightings sightings).Proper := by
  induction sightings with
  | nil => simp [ofSightings, Proper, find?, empty]
  | cons sighting rest ih =>
      cases sighting with
      | input input trail under => exact ih.foldl_add input under
      | reuse flipflop under => exact ih

end Cones

namespace Walker

theorem mem_reuses_iff (walker : Walker) (reuse : Reuse) :
    reuse ∈ walker.reuses ↔ ∃ under, Sighting.reuse reuse.flipflop under ∈ walker.sightings ∧
      reuse.target ∈ under ∧ reuse.target ≠ .flipflop reuse.flipflop := by
  simp only [reuses, List.mem_eraseDups, List.mem_flatMap]
  constructor
  · rintro ⟨sighting, member, joined⟩
    cases sighting with
    | input index trail under => simp [Sighting.reuses] at joined
    | reuse flipflop under =>
        simp only [Sighting.reuses, List.mem_map, List.mem_filter, decide_eq_true_eq] at joined
        obtain ⟨target, ⟨walked, different⟩, rfl⟩ := joined
        exact ⟨under, member, walked, different⟩
  · rintro ⟨under, member, walked, different⟩
    refine ⟨.reuse reuse.flipflop under, member, ?_⟩
    simp only [Sighting.reuses, List.mem_map, List.mem_filter, decide_eq_true_eq]
    exact ⟨reuse.target, ⟨walked, different⟩, rfl⟩

theorem mem_cones_iff (walker : Walker) (target : Target) (index : Nat) :
    index ∈ walker.cones.cone target ↔
      Cones.Flows walker.reuses (.ofSightings walker.sightings) index target :=
  Cones.mem_close_iff _ _ _ _

theorem proper_cones (walker : Walker) : walker.cones.Proper :=
  (Cones.proper_ofSightings walker.sightings).close walker.reuses

end Walker

end GateLevel
