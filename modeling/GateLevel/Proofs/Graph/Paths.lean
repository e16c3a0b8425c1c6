import GateLevel.Proofs.Graph.Ending
import GateLevel.Proofs.Graph.Gathering
import GateLevel.Proofs.Graph.Survey
import Mathlib.Logic.Relation

/-! Paths through a graph, on which a flip-flop leads on to the root that drives it. In whatever
sequence outputs are walked, the cones hold the inputs that paths lead to. -/

namespace GateLevel

namespace Roots

inductive Step (roots : Roots) : NodeId → NodeId → Prop
  | child {id node child} : roots.arena.node? id = some node → child ∈ node.children →
      Step roots id child
  | through {id index children root} :
      roots.arena.node? id = some ⟨.signal (.flipflop index), children⟩ →
      roots.flipflops[index]? = some root → Step roots id root

def Reaches (roots : Roots) (target : Target) (signal : Signal) : Prop :=
  ∃ root id children, roots.root? target = some root ∧
    Relation.ReflTransGen roots.Step root id ∧
    roots.arena.node? id = some ⟨.signal signal, children⟩

variable {roots : Roots}

theorem exists_path_of_below {id : NodeId} {signal : Signal} (below : roots.arena.Below id signal) :
    ∃ last children, Relation.ReflTransGen roots.Step id last ∧
      roots.arena.node? last = some ⟨.signal signal, children⟩ := by
  induction below with
  | here found => exact ⟨_, _, .refl, found⟩
  | child found member _ ih =>
      obtain ⟨last, children, path, bears⟩ := ih
      exact ⟨last, children, .head (.child found member) path, bears⟩

theorem reaches_of_sees {target : Target} {signal : Signal} (sees : roots.Sees target signal) :
    roots.Reaches target signal := by
  induction sees with
  | direct finds =>
      obtain ⟨root, driven, below⟩ := finds
      obtain ⟨last, children, path, bears⟩ := exists_path_of_below below
      exact ⟨root, last, children, driven, path, bears⟩
  | through finds _ ih =>
      obtain ⟨root, driven, below⟩ := finds
      obtain ⟨middle, _, front, flipflop⟩ := exists_path_of_below below
      obtain ⟨next, last, children, entered, back, bears⟩ := ih
      exact ⟨root, last, children, driven, front.trans (.head (.through flipflop entered) back),
        bears⟩

theorem Within.step {target : Target} {id next : NodeId} (within : roots.Within target id)
    (step : roots.Step id next) : roots.Within target next := by
  cases step with
  | child found member => exact within.child found member
  | through flipflop entered =>
      intro signal below
      apply (within _ (.here flipflop)).trans rfl
      exact .direct ⟨next, entered, below⟩

theorem sees_of_reaches {target : Target} {signal : Signal}
    (reaches : roots.Reaches target signal) : roots.Sees target signal := by
  obtain ⟨root, last, children, driven, path, bears⟩ := reaches
  have within : roots.Within target last := by
    clear bears
    induction path with
    | refl => exact fun _ below => .direct ⟨root, driven, below⟩
    | tail _ step ih => exact ih.step step
  exact within signal (.here bears)

theorem sees_iff_reaches (target : Target) (signal : Signal) :
    roots.Sees target signal ↔ roots.Reaches target signal :=
  ⟨reaches_of_sees, sees_of_reaches⟩

/-- The targets that walks from the outputs come to. -/
def Visits (roots : Roots) (outputs : List Nat) : Target → Prop
  | .output index => index ∈ outputs
  | .flipflop index => ∃ output ∈ outputs, roots.Reaches (.output output) (.flipflop index)

theorem visits_congr {outputs others : List Nat} (same : ∀ index, index ∈ others ↔ index ∈ outputs)
    (target : Target) : roots.Visits others target ↔ roots.Visits outputs target := by
  cases target with
  | output index => exact same index
  | flipflop index => simp only [Visits, same]

end Roots

namespace Cones

/-- Just the targets that the walks come to and that reach an input have an entry, and it holds
just the inputs that they reach. -/
structure Exact (cones : Cones) (roots : Roots) (outputs : List Nat) : Prop where
  mem_iff : ∀ target, roots.Visits outputs target → ∀ input,
    input ∈ cones.cone target ↔ roots.Reaches target (.input input)
  entry_iff : ∀ target, (cones.find? target).isSome ↔
    roots.Visits outputs target ∧ ∃ input, roots.Reaches target (.input input)

namespace Exact

variable {cones later : Cones} {roots : Roots} {outputs others : List Nat}

theorem mem_cone_iff (exact : cones.Exact roots outputs) (target : Target) (input : Nat) :
    input ∈ cones.cone target ↔
      roots.Visits outputs target ∧ roots.Reaches target (.input input) := by
  by_cases visited : roots.Visits outputs target
  · simp [visited, exact.mem_iff target visited]
  · have absent : cones.find? target = none := by
      rw [← Option.not_isSome_iff_eq_none]
      exact fun entry => visited ((exact.entry_iff target).mp entry).1
    simp [visited, not_mem_cone_of_find? absent]

theorem proper (exact : cones.Exact roots outputs) : cones.Proper := by
  intro target cone found
  obtain ⟨visited, input, reaches⟩ := (exact.entry_iff target).mp (by simp [found])
  refine ⟨input, ?_⟩
  rw [← cone_of_find? found]
  exact (exact.mem_iff target visited input).mpr reaches

theorem find?_eq (first : cones.Exact roots outputs) (second : later.Exact roots others)
    (same : ∀ index, index ∈ others ↔ index ∈ outputs) (target : Target) :
    later.find? target = cones.find? target := by
  refine first.proper.find?_eq second.proper (fun target input => ?_) target
  rw [first.mem_cone_iff, second.mem_cone_iff, roots.visits_congr same]

theorem congr (exact : cones.Exact roots outputs)
    (same : ∀ target, later.find? target = cones.find? target) : later.Exact roots outputs := by
  constructor
  · intro target visited input
    rw [cone, same]
    exact exact.mem_iff target visited input
  · intro target
    rw [same]
    exact exact.entry_iff target

end Exact

end Cones

namespace Walker

variable {roots : Roots} {outputs : List Nat} {walker : Walker}

structure Begun (outputs : List Nat) (walker : Walker) : Prop where
  hierarchy : walker.hierarchy = []
  outputs : ∀ sighting ∈ walker.sightings, ∀ index, .output index ∈ sighting.under →
    index ∈ outputs

theorem Begun.walkOutput {after : Walker} {output : Nat} (begun : Begun outputs walker)
    (walked : walker.walkOutput roots output = .ok after) : Begun (outputs ++ [output]) after := by
  obtain ⟨root, inside, _, walks, rfl⟩ := walks_of_walkOutput walked
  obtain ⟨new, same, unders⟩ := walks.frame.sightings
  constructor
  · rw [popTarget, walks.frame.hierarchy, pushTarget, begun.hierarchy]
    rfl
  · intro sighting member index under
    rw [popTarget, same] at member
    rcases List.mem_append.mp member with later | earlier
    · rcases (unders sighting later).2 _ under with above | ⟨_, flipflop, _⟩
      · simp only [pushTarget, begun.hierarchy, List.mem_singleton, Target.output.injEq] at above
        simp [above]
      · simp at flipflop
    · exact List.mem_append_left _ (begun.outputs sighting earlier index under)

theorem begun_of_walkAll (walked : walkAll roots outputs = .ok walker) : Begun outputs walker :=
  walkAll_induction ⟨rfl, by simp [start]⟩ (fun begun => begun.walkOutput) walked

namespace Surveyed

theorem reached_iff_visits (surveyed : Surveyed roots outputs walker) (target : Target) :
    Reached outputs walker target ↔ roots.Visits outputs target := by
  cases target with
  | output index => exact Iff.rfl
  | flipflop index =>
      simp only [Roots.Visits, ← Roots.sees_iff_reaches]
      exact surveyed.entered_iff index

theorem reached_of_under (surveyed : Surveyed roots outputs walker) (begun : Begun outputs walker)
    {sighting : Sighting} (member : sighting ∈ walker.sightings) {target : Target}
    (under : target ∈ sighting.under) : Reached outputs walker target := by
  cases target with
  | output index => exact begun.outputs sighting member index under
  | flipflop index => exact surveyed.sane.sightings sighting member index under

theorem reached_of_mem_cone (surveyed : Surveyed roots outputs walker)
    (begun : Begun outputs walker) {target : Target} {input : Nat}
    (member : input ∈ walker.cones.cone target) : Reached outputs walker target := by
  rw [mem_cones_iff] at member
  cases member with
  | start present =>
      obtain ⟨_, _, sighted, under⟩ := (Cones.mem_cone_ofSightings_iff ..).mp present
      exact surveyed.reached_of_under begun sighted under
  | @pass reuse joined _ =>
      obtain ⟨_, sighted, under, _⟩ := (walker.mem_reuses_iff reuse).mp joined
      exact surveyed.reached_of_under begun sighted under

theorem exact (surveyed : Surveyed roots outputs walker) (begun : Begun outputs walker) :
    walker.cones.Exact roots outputs := by
  have members : ∀ target, roots.Visits outputs target → ∀ input,
      input ∈ walker.cones.cone target ↔ roots.Reaches target (.input input) := by
    intro target visited input
    rw [← Roots.sees_iff_reaches]
    constructor
    · exact surveyed.sees_of_mem_cone
    · exact surveyed.mem_cone_of_sees ((surveyed.reached_iff_visits target).mpr visited)
  refine ⟨members, fun target => ?_⟩
  rw [walker.proper_cones.isSome_iff]
  constructor
  · rintro ⟨input, member⟩
    have visited : roots.Visits outputs target :=
      (surveyed.reached_iff_visits target).mp (surveyed.reached_of_mem_cone begun member)
    exact ⟨visited, input, (members target visited input).mp member⟩
  · rintro ⟨visited, input, reaches⟩
    exact ⟨input, (members target visited input).mpr reaches⟩

end Surveyed

end Walker

namespace Roots

/-- A walk over the outputs in any sequence ends. Its cones are exact, in whatever sequence the
reuses are taken to close what the walk has gathered, and those that any other walk over the same
outputs leaves. -/
theorem exists_exact_cones {roots : Roots} (grounded : roots.Grounded) {outputs : List Nat}
    (present : ∀ index ∈ outputs, index < roots.outputs.length) :
    ∃ walker, Walker.walkAll roots outputs = .ok walker ∧ walker.cones.Exact roots outputs ∧
      (∀ order : Nat → List Reuse, (∀ round reuse, reuse ∈ order round ↔ reuse ∈ walker.reuses) →
        ∃ fuel closed, (Cones.gathered walker.sightings).closeFrom order 0 fuel = some closed ∧
          closed.Exact roots outputs) ∧
      ∀ others : List Nat, (∀ index, index ∈ others ↔ index ∈ outputs) →
        ∃ other, Walker.walkAll roots others = .ok other ∧
          ∀ target, other.cones.find? target = walker.cones.find? target := by
  have exact {outputs : List Nat} {walker : Walker}
      (walked : Walker.walkAll roots outputs = .ok walker) : walker.cones.Exact roots outputs :=
    (Walker.Surveyed.walkAll walked).exact (Walker.begun_of_walkAll walked)
  obtain ⟨walker, walked⟩ := Walker.exists_walkAll grounded present
  refine ⟨walker, walked, exact walked, ?_, ?_⟩
  · intro order same
    obtain ⟨closed, ended, entries⟩ := walker.find?_closeFrom_gathered same
    exact ⟨_, closed, ended, (exact walked).congr entries⟩
  · intro others same
    obtain ⟨other, otherWalked⟩ := Walker.exists_walkAll grounded
      fun index member => present index ((same index).mp member)
    exact ⟨other, otherWalked, (exact walked).find?_eq (exact otherWalked) same⟩

def feedback : Roots where
  arena := ⟨#[.leaf (.input 0), .leaf (.input 1), ⟨.signal (.flipflop 1), [0]⟩,
    .leaf (.flipflop 0), ⟨.signal (.input 2), [2]⟩, ⟨.gate (.binary .xor), [3, 1]⟩,
    ⟨.gate .not, []⟩, ⟨.signal (.input 3), [5]⟩]⟩
  outputs := [5, 6, 7]
  flipflops := [4, 5, 0]

theorem grounded_feedback : feedback.Grounded := by
  refine ⟨?_, ?_, by decide, by decide⟩
  · intro id node found
    rcases id with _ | _ | _ | _ | _ | _ | _ | _ | id <;> simp [feedback, Arena.node?] at found <;>
      subst found <;> simp [Node.leaf]
  · intro id index children found
    rcases id with _ | _ | _ | _ | _ | _ | _ | _ | id <;>
      simp [feedback, Arena.node?, Node.leaf] at found <;> simp [feedback, ← found.1]

/-- The second flip-flop comes to its first input only by closing over the reuses. -/
theorem exists_exact_cones_feedback :
    feedback.Grounded ∧ ∃ walker, Walker.walkAll feedback [2, 1, 0, 2] = .ok walker ∧
      ((Cones.gathered walker.sightings).cone (.flipflop 1)).inputs = [1, 2] ∧
      (walker.cones.cone (.flipflop 1)).inputs = [0, 1, 2] ∧
      walker.cones.find? (.output 1) = none ∧ walker.cones.find? (.flipflop 2) = none ∧
      feedback.Reaches (.flipflop 1) (.input 0) ∧
      ∃ other, Walker.walkAll feedback [0, 2, 1] = .ok other ∧
        ∀ target, other.cones.find? target = walker.cones.find? target := by
  have present : ∀ index ∈ [2, 1, 0, 2], index < feedback.outputs.length := by decide
  obtain ⟨walker, walked, exact, _, order⟩ := exists_exact_cones grounded_feedback present
  have computed : (Walker.walkAll feedback [2, 1, 0, 2]).map (fun walker =>
      (((Cones.gathered walker.sightings).cone (.flipflop 1)).inputs,
        walker.cones.find? (.output 1), walker.cones.find? (.flipflop 2),
        (walker.cones.find? (.flipflop 1)).map (·.inputs))) =
      .ok ([1, 2], none, none, some [0, 1, 2]) := by
    decide +kernel
  rw [walked] at computed
  simp only [Except.map, Except.ok.injEq, Prod.mk.injEq, Option.map_eq_some_iff] at computed
  obtain ⟨gathered, output, flipflop, cone, found, inputs⟩ := computed
  have closed : (walker.cones.cone (.flipflop 1)).inputs = [0, 1, 2] := by
    rw [Cones.cone_of_find? found, inputs]
  have visited := ((exact.entry_iff (.flipflop 1)).mp (by simp [found])).1
  refine ⟨grounded_feedback, walker, walked, gathered, closed, output, flipflop, ?_, ?_⟩
  · apply (exact.mem_iff (.flipflop 1) visited 0).mp
    show 0 ∈ (walker.cones.cone (.flipflop 1)).inputs
    simp [closed]
  · exact order [0, 2, 1] (by simp; omega)

end Roots

end GateLevel
