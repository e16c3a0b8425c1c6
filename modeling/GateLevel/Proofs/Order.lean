import GateLevel.Schedule
import Mathlib.Data.List.Perm.Basic
import Mathlib.Data.List.Basic

/-! The work list places exactly the assignments whose operands can become available, each of
them once and after the assignments of the outputs that it reads. -/

namespace GateLevel

namespace Assignment

/-- The assignment gives the signal its value within a tick. A flip-flop shows its new value only
after the tick, so it is not driven in this sense. -/
def Drives (assignment : Assignment) (signal : Signal) : Prop :=
  ∃ index, assignment.target = .output index ∧ signal = .output index

end Assignment

inductive Seeded (inputs flipflops : Nat) : Signal → Prop
  | input {index} : index < inputs → Seeded inputs flipflops (.input index)
  | flipflop {index} : index < flipflops → Seeded inputs flipflops (.flipflop index)

/-- The signals that can become available in some order of the assignments. -/
inductive Available (inputs flipflops : Nat) (assignments : List Assignment) : Signal → Prop
  | seed {signal} : Seeded inputs flipflops signal → Available inputs flipflops assignments signal
  | output {assignment index} : assignment ∈ assignments → assignment.target = .output index →
      (∀ signal ∈ assignment.operands, Available inputs flipflops assignments signal) →
      Available inputs flipflops assignments (.output index)

def Placeable (inputs flipflops : Nat) (assignments : List Assignment) (assignment : Assignment) :
    Prop :=
  ∀ signal ∈ assignment.operands, Available inputs flipflops assignments signal

def Ordered : (Signal → Prop) → List Assignment → Prop
  | _, [] => True
  | known, assignment :: rest =>
    (∀ signal ∈ assignment.operands, known signal) ∧
      Ordered (fun signal => known signal ∨ assignment.Drives signal) rest

namespace Ordered

theorem mono {known wider : Signal → Prop} {order : List Assignment}
    (ordered : Ordered known order) (included : ∀ signal, known signal → wider signal) :
    Ordered wider order := by
  induction order generalizing known wider with
  | nil => trivial
  | cons assignment rest ih =>
      refine ⟨fun signal read => included signal (ordered.1 signal read), ih ordered.2 ?_⟩
      rintro signal (old | driven)
      · exact Or.inl (included signal old)
      · exact Or.inr driven

theorem append {known : Signal → Prop} {first second : List Assignment}
    (front : Ordered known first)
    (back : Ordered (fun signal => known signal ∨ ∃ assignment ∈ first, assignment.Drives signal)
      second) :
    Ordered known (first ++ second) := by
  induction first generalizing known with
  | nil => exact back.mono (by simp)
  | cons assignment rest ih =>
      refine ⟨front.1, ih front.2 (back.mono ?_)⟩
      rintro signal (old | ⟨driver, member, driven⟩)
      · exact Or.inl (Or.inl old)
      · rcases List.mem_cons.mp member with same | later
        · exact Or.inl (Or.inr (same ▸ driven))
        · exact Or.inr ⟨driver, later, driven⟩

theorem of_forall {known : Signal → Prop} {order : List Assignment}
    (reads : ∀ assignment ∈ order, ∀ signal ∈ assignment.operands, known signal) :
    Ordered known order := by
  induction order generalizing known with
  | nil => trivial
  | cons assignment rest ih =>
      refine ⟨reads assignment (by simp), ih ?_⟩
      intro later member signal read
      exact Or.inl (reads later (List.mem_cons_of_mem _ member) signal read)

end Ordered

namespace Schedule

theorem mem_announce (entries : List Waiting) (ready : List Signal) (signal : Signal) :
    signal ∈ announce entries ready ↔
      signal ∈ ready ∨ ∃ entry ∈ entries, entry.assignment.Drives signal := by
  induction entries generalizing ready with
  | nil => simp [announce]
  | cons entry rest ih =>
      simp only [announce]
      split
      · rename_i index driven
        simp only [ih, List.mem_cons, Assignment.Drives]
        grind
      · rename_i index driven
        simp only [ih, List.mem_cons, Assignment.Drives]
        grind

theorem mem_sources (inputs flipflops : Nat) (signal : Signal) :
    signal ∈ sources inputs flipflops ↔ Seeded inputs flipflops signal := by
  constructor
  · intro member
    simp only [sources, List.mem_append, List.mem_reverse, List.mem_map, List.mem_range] at member
    rcases member with ⟨index, bound, rfl⟩ | ⟨index, bound, rfl⟩
    · exact .flipflop bound
    · exact .input bound
  · intro seeded
    cases seeded with
    | input bound => simp [sources, bound]
    | flipflop bound => simp [sources, bound]

theorem separate_perm (waiting : List Waiting) :
    ((separate waiting).1 ++ (separate waiting).2).Perm waiting :=
  List.filter_append_perm _ waiting

theorem releaseAll_perm (source : Signal) (waiting : List Waiting) :
    (((releaseAll source waiting).1 ++ (releaseAll source waiting).2).map (·.assignment)).Perm
      (waiting.map (·.assignment)) := by
  have same : (waiting.map (·.release source)).map (·.assignment) =
      waiting.map (·.assignment) := by
    simp [Waiting.release]
  rw [← same]
  exact (separate_perm _).map _

theorem drain_perm (ready : List Signal) (waiting : List Waiting) :
    ((drain ready waiting).placed ++ (drain ready waiting).stuck).Perm
      (waiting.map (·.assignment)) := by
  fun_induction drain ready waiting with
  | case1 waiting => simp
  | case2 source ready waiting released later ih =>
      have split := releaseAll_perm source waiting
      rw [List.map_append] at split
      rw [List.append_assoc]
      exact (ih.append_left _).trans split

structure Draining (inputs flipflops : Nat) (assignments : List Assignment)
    (gone : Signal → Prop) (ready : List Signal) (waiting : List Waiting) : Prop where
  sound : ∀ signal, gone signal ∨ signal ∈ ready → Available inputs flipflops assignments signal
  seeds : ∀ signal, Seeded inputs flipflops signal → gone signal ∨ signal ∈ ready
  missing : ∀ entry ∈ waiting, ∀ signal,
    signal ∈ entry.missing ↔ signal ∈ entry.assignment.operands ∧ ¬ gone signal
  blocked : ∀ entry ∈ waiting, entry.missing ≠ []
  driven : ∀ assignment ∈ assignments, (∃ entry ∈ waiting, entry.assignment = assignment) ∨
    ∀ signal, assignment.Drives signal → gone signal ∨ signal ∈ ready
  given : ∀ entry ∈ waiting, entry.assignment ∈ assignments

theorem mem_separate_fst (waiting : List Waiting) (entry : Waiting) :
    entry ∈ (separate waiting).1 ↔ entry ∈ waiting ∧ entry.missing = [] := by
  simp [separate, Waiting.isReady]

theorem mem_separate_snd (waiting : List Waiting) (entry : Waiting) :
    entry ∈ (separate waiting).2 ↔ entry ∈ waiting ∧ entry.missing ≠ [] := by
  simp [separate, Waiting.isReady]

section

variable {inputs flipflops : Nat} {assignments : List Assignment}

theorem draining_separate {gone : Signal → Prop} {ready : List Signal} {waiting : List Waiting}
    (sound : ∀ signal, gone signal ∨ signal ∈ ready →
      Available inputs flipflops assignments signal)
    (seeds : ∀ signal, Seeded inputs flipflops signal → gone signal ∨ signal ∈ ready)
    (missing : ∀ entry ∈ waiting, ∀ signal,
      signal ∈ entry.missing ↔ signal ∈ entry.assignment.operands ∧ ¬ gone signal)
    (driven : ∀ assignment ∈ assignments, (∃ entry ∈ waiting, entry.assignment = assignment) ∨
      ∀ signal, assignment.Drives signal → gone signal ∨ signal ∈ ready)
    (given : ∀ entry ∈ waiting, entry.assignment ∈ assignments) :
    (∀ entry ∈ (separate waiting).1, ∀ signal ∈ entry.assignment.operands, gone signal) ∧
      Draining inputs flipflops assignments gone (announce (separate waiting).1 ready)
        (separate waiting).2 := by
  have placed : ∀ entry ∈ (separate waiting).1,
      ∀ signal ∈ entry.assignment.operands, gone signal := by
    intro entry member signal read
    obtain ⟨old, empty⟩ := (mem_separate_fst waiting entry).mp member
    by_contra fresh
    have lacking := (missing entry old signal).mpr ⟨read, fresh⟩
    simp [empty] at lacking
  refine ⟨placed, ?_, ?_, ?_, ?_, ?_, ?_⟩
  · rintro signal (used | member)
    · exact sound signal (Or.inl used)
    · rcases (mem_announce _ _ _).mp member with old | ⟨entry, now, index, target, rfl⟩
      · exact sound signal (Or.inr old)
      · refine .output (given entry ((mem_separate_fst waiting entry).mp now).1) target ?_
        intro operand read
        exact sound operand (Or.inl (placed entry now operand read))
  · intro signal seeded
    exact (seeds signal seeded).imp_right fun old => (mem_announce _ _ _).mpr (Or.inl old)
  · intro entry member
    exact missing entry ((mem_separate_snd waiting entry).mp member).1
  · intro entry member
    exact ((mem_separate_snd waiting entry).mp member).2
  · intro assignment member
    rcases driven assignment member with ⟨entry, old, same⟩ | earlier
    · by_cases empty : entry.missing = []
      · right
        intro signal drives
        have now := (mem_separate_fst waiting entry).mpr ⟨old, empty⟩
        exact Or.inr ((mem_announce _ _ _).mpr (Or.inr ⟨entry, now, same ▸ drives⟩))
      · exact Or.inl ⟨entry, (mem_separate_snd waiting entry).mpr ⟨old, empty⟩, same⟩
    · right
      intro signal drives
      exact (earlier signal drives).imp_right fun old => (mem_announce _ _ _).mpr (Or.inl old)
  · intro entry member
    exact given entry ((mem_separate_snd waiting entry).mp member).1

/-- One step of the work list keeps the invariant, and what it places reads only signals that
have been used up. -/
theorem Draining.step {gone : Signal → Prop} {source : Signal} {ready : List Signal}
    {waiting : List Waiting}
    (draining : Draining inputs flipflops assignments gone (source :: ready) waiting) :
    (∀ entry ∈ (releaseAll source waiting).1, ∀ signal ∈ entry.assignment.operands,
      gone signal ∨ signal = source) ∧
      Draining inputs flipflops assignments (fun signal => gone signal ∨ signal = source)
        (announce (releaseAll source waiting).1 ready) (releaseAll source waiting).2 := by
  have moved : ∀ signal, gone signal ∨ signal ∈ source :: ready ↔
      (gone signal ∨ signal = source) ∨ signal ∈ ready := by
    intro signal
    simp only [List.mem_cons, or_assoc]
  apply draining_separate
  · intro signal known
    exact draining.sound signal ((moved signal).mpr known)
  · intro signal seeded
    exact (moved signal).mp (draining.seeds signal seeded)
  · intro entry member signal
    obtain ⟨old, present, rfl⟩ := List.mem_map.mp member
    have lacking := draining.missing old present signal
    simp only [Waiting.release, List.mem_filter, decide_eq_true_eq, lacking]
    grind
  · intro assignment member
    rcases draining.driven assignment member with ⟨entry, present, same⟩ | earlier
    · exact Or.inl ⟨entry.release source, List.mem_map_of_mem present, same⟩
    · right
      intro signal drives
      exact (moved signal).mp (earlier signal drives)
  · intro entry member
    obtain ⟨old, present, rfl⟩ := List.mem_map.mp member
    exact draining.given old present

theorem Draining.complete {gone : Signal → Prop} {waiting : List Waiting}
    (draining : Draining inputs flipflops assignments gone [] waiting) {signal : Signal}
    (available : Available inputs flipflops assignments signal) : gone signal := by
  induction available with
  | seed seeded => simpa using draining.seeds _ seeded
  | @output assignment index member target _ ih =>
      rcases draining.driven assignment member with ⟨entry, present, rfl⟩ | placed
      · obtain ⟨lacking, rest⟩ := List.exists_mem_of_ne_nil _ (draining.blocked entry present)
        obtain ⟨read, fresh⟩ := (draining.missing entry present lacking).mp rest
        exact absurd (ih lacking read) fresh
      · simpa using placed (.output index) ⟨index, target, rfl⟩

theorem Draining.ordered {gone : Signal → Prop} {ready : List Signal} {waiting : List Waiting}
    (draining : Draining inputs flipflops assignments gone ready waiting) :
    Ordered (fun signal => gone signal ∨ signal ∈ ready) (drain ready waiting).placed := by
  fun_induction drain ready waiting generalizing gone with
  | case1 waiting => trivial
  | case2 source ready waiting released later =>
      rename_i ih
      obtain ⟨placed, next⟩ := draining.step
      refine Ordered.append (Ordered.of_forall ?_) ((ih next).mono ?_)
      · intro assignment member signal read
        obtain ⟨entry, now, rfl⟩ := List.mem_map.mp member
        rcases placed entry now signal read with used | same
        · exact Or.inl used
        · exact Or.inr (by simp [same])
      · rintro signal ((used | same) | member)
        · exact Or.inl (Or.inl used)
        · exact Or.inl (Or.inr (by simp [same]))
        · rcases (mem_announce _ _ _).mp member with old | ⟨entry, now, drives⟩
          · exact Or.inl (Or.inr (List.mem_cons_of_mem _ old))
          · exact Or.inr ⟨entry.assignment, List.mem_map_of_mem now, drives⟩

theorem filter_separate_snd (test : Assignment → Bool) (waiting : List Waiting)
    (fails : ∀ entry ∈ (separate waiting).1, test entry.assignment = false) :
    ((separate waiting).2.map (·.assignment)).filter test =
      (waiting.map (·.assignment)).filter test := by
  simp only [separate, List.mem_filter] at fails ⊢
  rw [List.filter_map, List.filter_map, List.filter_filter]
  congr 1
  apply List.filter_congr
  intro entry member
  cases ready : entry.isReady
  · simp
  · simp [fails entry ⟨member, ready⟩]

open Classical in
theorem Draining.stuck {gone : Signal → Prop} {ready : List Signal} {waiting : List Waiting}
    (draining : Draining inputs flipflops assignments gone ready waiting) :
    (drain ready waiting).stuck =
      (waiting.map (·.assignment)).filter (¬ Placeable inputs flipflops assignments ·) := by
  fun_induction drain ready waiting generalizing gone with
  | case1 waiting =>
      symm
      rw [List.filter_eq_self]
      intro assignment member
      obtain ⟨entry, present, rfl⟩ := List.mem_map.mp member
      obtain ⟨lacking, rest⟩ := List.exists_mem_of_ne_nil _ (draining.blocked entry present)
      obtain ⟨read, fresh⟩ := (draining.missing entry present lacking).mp rest
      rw [decide_eq_true_eq]
      intro placeable
      exact fresh (draining.complete (placeable lacking read))
  | case2 source ready waiting released later =>
      rename_i ih
      obtain ⟨placed, next⟩ := draining.step
      have unchanged : (waiting.map (·.release source)).map (·.assignment) =
          waiting.map (·.assignment) := by
        simp [Waiting.release]
      show later.stuck = _
      rw [ih next, ← unchanged]
      apply filter_separate_snd
      intro entry member
      have placeable : Placeable inputs flipflops assignments entry.assignment := by
        intro signal read
        apply draining.sound
        rcases placed entry member signal read with used | same
        · exact Or.inl used
        · exact Or.inr (by simp [same])
      simp [placeable]

end

variable (inputs flipflops : Nat) (assignments : List Assignment)

theorem draining_start :
    (∀ entry ∈ (separate (assignments.map .start)).1,
      ∀ signal ∈ entry.assignment.operands, False) ∧
      Draining inputs flipflops assignments (fun _ => False)
        (announce (separate (assignments.map .start)).1 (sources inputs flipflops))
        (separate (assignments.map .start)).2 := by
  apply draining_separate
  · rintro signal (impossible | member)
    · exact impossible.elim
    · exact .seed ((mem_sources inputs flipflops signal).mp member)
  · intro signal seeded
    exact Or.inr ((mem_sources inputs flipflops signal).mpr seeded)
  · intro entry member signal
    obtain ⟨assignment, _, rfl⟩ := List.mem_map.mp member
    simp [Waiting.start]
  · intro assignment member
    exact Or.inl ⟨.start assignment, List.mem_map_of_mem member, rfl⟩
  · intro entry member
    obtain ⟨assignment, present, rfl⟩ := List.mem_map.mp member
    exact present

theorem map_assignment_start :
    (assignments.map Waiting.start).map (·.assignment) = assignments := by
  exact List.map_map.trans (List.map_id _)

theorem plan_perm :
    ((plan inputs flipflops assignments).placed ++ (plan inputs flipflops assignments).stuck).Perm
      assignments := by
  have split := (separate_perm (assignments.map .start)).map (·.assignment)
  rw [map_assignment_start, List.map_append] at split
  simp only [plan, List.append_assoc]
  exact ((drain_perm _ _).append_left _).trans split

theorem plan_ordered :
    Ordered (Seeded inputs flipflops) (plan inputs flipflops assignments).placed := by
  obtain ⟨placed, start⟩ := draining_start inputs flipflops assignments
  refine Ordered.append (Ordered.of_forall ?_) (start.ordered.mono ?_)
  · intro assignment member signal read
    obtain ⟨entry, now, rfl⟩ := List.mem_map.mp member
    exact (placed entry now signal read).elim
  · rintro signal (impossible | member)
    · exact impossible.elim
    · rcases (mem_announce _ _ _).mp member with source | ⟨entry, now, drives⟩
      · exact Or.inl ((mem_sources inputs flipflops signal).mp source)
      · exact Or.inr ⟨entry.assignment, List.mem_map_of_mem now, drives⟩

open Classical in
/-- What stays behind is what cannot be placed in any order, in the given order. -/
theorem plan_stuck :
    (plan inputs flipflops assignments).stuck =
      assignments.filter (¬ Placeable inputs flipflops assignments ·) := by
  obtain ⟨placed, start⟩ := draining_start inputs flipflops assignments
  show (drain _ _).stuck = _
  rw [start.stuck, filter_separate_snd, map_assignment_start]
  intro entry member
  have placeable : Placeable inputs flipflops assignments entry.assignment :=
    fun signal read => (placed entry member signal read).elim
  simp [placeable]

end Schedule

end GateLevel
