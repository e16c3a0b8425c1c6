import GateLevel.Proofs.Graph.Support
import GateLevel.Proofs.Graph.Survey

/-! Logic cones are exact: they hold the inputs that a target depends on through the assignments
of the netlist, whatever feedback there is. -/

namespace GateLevel

namespace Netlist

def Reads (netlist : Netlist) (reader read : Signal) : Prop :=
  ∃ assignment ∈ netlist.assignments,
    assignment.target.signal = reader ∧ read ∈ assignment.operands

instance (netlist : Netlist) (reader read : Signal) : Decidable (netlist.Reads reader read) :=
  inferInstanceAs (Decidable (∃ assignment ∈ netlist.assignments,
    assignment.target.signal = reader ∧ read ∈ assignment.operands))

def DependsOn (netlist : Netlist) : Signal → Signal → Prop :=
  Relation.TransGen netlist.Reads

def Observed (netlist : Netlist) : Target → Prop
  | .output index => index < netlist.outputs.length
  | .flipflop index =>
    ∃ output < netlist.outputs.length, netlist.DependsOn (.output output) (.flipflop index)

theorem dependsOn_of_ne {netlist : Netlist} {reader read : Signal}
    (path : Relation.ReflTransGen netlist.Reads reader read) (different : reader ≠ read) :
    netlist.DependsOn reader read := by
  rcases Relation.reflTransGen_iff_eq_or_transGen.mp path with same | path
  · exact absurd same.symm different
  · exact path

theorem not_dependsOn_input {netlist : Netlist} {index : Nat} {read : Signal} :
    ¬ netlist.DependsOn (.input index) read := by
  intro path
  obtain ⟨_, ⟨assignment, _, same, _⟩, _⟩ := Relation.TransGen.head'_iff.mp path
  cases target : assignment.target <;> simp [target, Target.signal] at same

theorem Orderly.output_lt_of_dependsOn {netlist : Netlist} (orderly : netlist.Orderly)
    {index : Nat} {read : Signal} (depends : netlist.DependsOn (.output index) read) :
    index < netlist.outputs.length := by
  obtain ⟨_, ⟨assignment, member, same, _⟩, _⟩ := Relation.TransGen.head'_iff.mp depends
  have declared := orderly.targets_declared assignment member
  rw [same] at declared
  exact declared

end Netlist

namespace Roots.Draws

variable {roots : Roots} {netlist : Netlist}

theorem path_of_shows (draws : roots.Draws netlist) (orderly : netlist.Orderly) :
    ∀ operand, netlist.Declares operand → ∀ signal, roots.Shows operand signal →
      Relation.ReflTransGen netlist.Reads operand signal := by
  refine orderly.induction ?_ ?_
  · intro operand seeded signal visible
    cases seeded <;> exact (show signal = _ from visible) ▸ .refl
  · intro assignment member index target known signal visible
    have finds : roots.Finds assignment.target signal := target ▸ visible
    obtain ⟨operand, mentioned, beyond⟩ := (draws.driven assignment member signal).mp finds
    exact .head ⟨assignment, member, by rw [target]; rfl, mentioned⟩
      (known operand mentioned signal beyond)

theorem path_of_finds (draws : roots.Draws netlist) (orderly : netlist.Orderly) {target : Target}
    {signal : Signal} (finds : roots.Finds target signal) :
    Relation.ReflTransGen netlist.Reads target.signal signal := by
  cases target with
  | output index =>
      obtain ⟨root, driven, below⟩ := finds
      have declared : netlist.Declares (.output index) := by
        have bound := (List.getElem?_eq_some_iff.mp driven).1
        rw [draws.outputs] at bound
        exact bound
      exact draws.path_of_shows orderly _ declared signal ⟨root, driven, below⟩
  | flipflop index =>
      by_cases driven : ∃ assignment ∈ netlist.assignments, assignment.target = .flipflop index
      · obtain ⟨assignment, member, target⟩ := driven
        rw [← target] at finds ⊢
        obtain ⟨operand, mentioned, beyond⟩ := (draws.driven assignment member signal).mp finds
        exact .head ⟨assignment, member, rfl, mentioned⟩ (draws.path_of_shows orderly operand
          (orderly.operands_declared assignment member operand mentioned) signal beyond)
      · rw [draws.undriven index (by simpa using driven) signal finds]
        exact .refl

theorem path_of_sees (draws : roots.Draws netlist) (orderly : netlist.Orderly) {target : Target}
    {signal : Signal} (sees : roots.Sees target signal) :
    Relation.ReflTransGen netlist.Reads target.signal signal := by
  induction sees with
  | direct finds => exact draws.path_of_finds orderly finds
  | through finds _ ih => exact (draws.path_of_finds orderly finds).trans ih

theorem sees_of_reads (draws : roots.Draws netlist) {assignment : Assignment}
    (member : assignment ∈ netlist.assignments) {index : Nat}
    (read : .output index ∈ assignment.operands) {signal : Signal}
    (sees : roots.Sees (.output index) signal) : roots.Sees assignment.target signal := by
  have finds {signal : Signal} (finds : roots.Finds (.output index) signal) :
      roots.Finds assignment.target signal :=
    (draws.driven assignment member signal).mpr ⟨.output index, read, finds⟩
  cases sees with
  | direct found => exact .direct (finds found)
  | through found beyond => exact .through (finds found) beyond

theorem sees_of_dependsOn (draws : roots.Draws netlist) {target : Target} {signal : Signal}
    (depends : netlist.DependsOn target.signal signal) (leaf : ∀ index, signal ≠ .output index) :
    roots.Sees target signal := by
  -- The path is taken from its far end: an output on it only passes on what it sees itself.
  generalize same : target.signal = reader at depends
  induction depends using Relation.TransGen.head_induction_on generalizing target with
  | single reads =>
      obtain ⟨assignment, member, reader, mentioned⟩ := reads
      rw [← same] at reader
      rw [← Target.signal_injective reader]
      have own : roots.Shows signal signal := by
        cases signal with
        | output index => exact absurd rfl (leaf index)
        | input index => rfl
        | flipflop index => rfl
      exact .direct ((draws.driven assignment member signal).mpr ⟨signal, mentioned, own⟩)
  | @head _ middle reads path ih =>
      obtain ⟨assignment, member, reader, mentioned⟩ := reads
      rw [← same] at reader
      rw [← Target.signal_injective reader]
      cases middle with
      | input index => exact absurd path Netlist.not_dependsOn_input
      | output index =>
          have beyond : roots.Sees (.output index) signal := ih rfl
          exact draws.sees_of_reads member mentioned beyond
      | flipflop index =>
          have beyond : roots.Sees (.flipflop index) signal := ih rfl
          have finds := (draws.driven assignment member (.flipflop index)).mpr
            ⟨.flipflop index, mentioned, rfl⟩
          exact .through finds beyond

end Roots.Draws

namespace Netlist

variable {netlist : Netlist}

theorem exists_walker_of_analyze {analysis : Analysis} (analyzed : netlist.analyze = .ok analysis) :
    netlist.graphTick.result = .ok () ∧ ∃ walker,
      Walker.walkAll netlist.graphTick.circuit.roots (List.range netlist.outputs.length) =
        .ok walker ∧ analysis.extremes = walker.extremes ∧ analysis.cones = walker.cones := by
  simp only [analyze] at analyzed
  split at analyzed
  · simp at analyzed
  · rename_i ticked
    split at analyzed
    · simp at analyzed
    · rename_i walker walked
      refine ⟨ticked, walker, walked, ?_⟩
      simp [← Except.ok.inj analyzed]

theorem analyze_eq_ok {analysis : Analysis} (analyzed : netlist.analyze = .ok analysis) :
    netlist.graphTick.result = .ok () ∧ ∃ walker,
      Walker.walkAll netlist.graphTick.circuit.roots (List.range netlist.outputs.length) =
        .ok walker ∧ analysis.cones = walker.cones := by
  obtain ⟨ticked, walker, walked, _, cones⟩ := exists_walker_of_analyze analyzed
  exact ⟨ticked, walker, walked, cones⟩

end Netlist

namespace Walker.Surveyed

variable {roots : Roots} {netlist : Netlist} {walker : Walker}

theorem reached_iff (surveyed : Surveyed roots (List.range netlist.outputs.length) walker)
    (draws : roots.Draws netlist) (orderly : netlist.Orderly) (target : Target) :
    Reached (List.range netlist.outputs.length) walker target ↔ netlist.Observed target := by
  cases target with
  | output index => exact List.mem_range
  | flipflop index =>
      refine (surveyed.entered_iff index).trans ?_
      simp only [List.mem_range]
      constructor
      · rintro ⟨output, bound, sees⟩
        exact ⟨output, bound, Netlist.dependsOn_of_ne (draws.path_of_sees orderly sees)
          (by simp)⟩
      · rintro ⟨output, bound, depends⟩
        exact ⟨output, bound, draws.sees_of_dependsOn depends (by simp)⟩

theorem mem_cone_iff (surveyed : Surveyed roots (List.range netlist.outputs.length) walker)
    (draws : roots.Draws netlist) (orderly : netlist.Orderly) {target : Target}
    (observed : netlist.Observed target) (input : Nat) :
    input ∈ walker.cones.cone target ↔ netlist.DependsOn target.signal (.input input) := by
  constructor
  · intro member
    refine Netlist.dependsOn_of_ne
      (draws.path_of_sees orderly (surveyed.sees_of_mem_cone member)) ?_
    cases target <;> simp [Target.signal]
  · intro depends
    exact surveyed.mem_cone_of_sees ((surveyed.reached_iff draws orderly target).mpr observed)
      (draws.sees_of_dependsOn depends (by simp))

theorem observed_of_mem_cone
    (surveyed : Surveyed roots (List.range netlist.outputs.length) walker)
    (draws : roots.Draws netlist) (orderly : netlist.Orderly) {target : Target} {input : Nat}
    (member : input ∈ walker.cones.cone target) : netlist.Observed target := by
  cases target with
  | output index =>
      exact orderly.output_lt_of_dependsOn (Netlist.dependsOn_of_ne
        (draws.path_of_sees orderly (surveyed.sees_of_mem_cone member)) (by simp))
  | flipflop index =>
      exact (surveyed.reached_iff draws orderly (.flipflop index)).mp
        (surveyed.entered_of_mem_cone member)

end Walker.Surveyed

namespace Netlist

variable {netlist : Netlist}

theorem mem_cone_iff_of_analyze (orderly : netlist.Orderly) {analysis : Analysis}
    (analyzed : netlist.analyze = .ok analysis) {target : Target}
    (observed : netlist.Observed target) (input : Nat) :
    input ∈ analysis.cone target ↔ netlist.DependsOn target.signal (.input input) := by
  obtain ⟨ticked, walker, walked, cones⟩ := analyze_eq_ok analyzed
  rw [Analysis.cone, cones]
  exact (Walker.Surveyed.walkAll walked).mem_cone_iff (graph_draws orderly ticked) orderly
    observed input

theorem observed_of_mem_cone_of_analyze (orderly : netlist.Orderly) {analysis : Analysis}
    (analyzed : netlist.analyze = .ok analysis) {target : Target} {input : Nat}
    (member : input ∈ analysis.cone target) : netlist.Observed target := by
  obtain ⟨ticked, walker, walked, cones⟩ := analyze_eq_ok analyzed
  rw [Analysis.cone, cones] at member
  exact (Walker.Surveyed.walkAll walked).observed_of_mem_cone (graph_draws orderly ticked) orderly
    member

/-- Cones are exact on the outputs and on all flip-flops that an output depends on, and exactly
those of them that depend on any input have a cone. -/
theorem cone_exact {declaration : Declaration} {analysis : Analysis}
    (resolved : declaration.resolve = .ok netlist) (analyzed : netlist.analyze = .ok analysis) :
    (∀ target, netlist.Observed target → ∀ input,
        input ∈ analysis.cone target ↔ netlist.DependsOn target.signal (.input input)) ∧
      ∀ target, (analysis.cones.find? target).isSome ↔
        netlist.Observed target ∧ ∃ input, netlist.DependsOn target.signal (.input input) := by
  have orderly := Declaration.orderly_of_resolve resolved
  have members := fun target (observed : netlist.Observed target) =>
    mem_cone_iff_of_analyze orderly analyzed observed
  refine ⟨members, ?_⟩
  intro target
  obtain ⟨ticked, walker, walked, cones⟩ := analyze_eq_ok analyzed
  have surveyed := Walker.Surveyed.walkAll walked
  have draws := graph_draws orderly ticked
  rw [cones, walker.proper_cones.isSome_iff, ← cones]
  constructor
  · rintro ⟨input, member⟩
    have observed := surveyed.observed_of_mem_cone draws orderly (cones ▸ member)
    exact ⟨observed, input, (members target observed input).mp member⟩
  · rintro ⟨observed, input, depends⟩
    exact ⟨input, (members target observed input).mpr depends⟩

theorem exists_of_map_analyze {α : Type} {view : Analysis → α} {value : α}
    (known : netlist.analyze.map view = .ok value) :
    ∃ analysis, netlist.analyze = .ok analysis ∧ view analysis = value := by
  cases analyzed : netlist.analyze with
  | error cause => simp [analyzed, Except.map] at known
  | ok analysis =>
      rw [analyzed] at known
      exact ⟨analysis, rfl, Except.ok.inj known⟩

theorem exists_analyze_ring :
    ∃ analysis, Netlist.ring.analyze = .ok analysis ∧
      (analysis.cone (.output 0)).inputs = [0, 1] ∧
      (analysis.cone (.flipflop 1)).inputs = [0, 1] ∧
      (analysis.cones.find? (.flipflop 2)).isSome = false := by
  have cones : Netlist.ring.analyze.map (fun analysis =>
      ((analysis.cone (.output 0)).inputs, (analysis.cone (.flipflop 1)).inputs,
        (analysis.cones.find? (.flipflop 2)).isSome)) = .ok ([0, 1], [0, 1], false) := by
    decide +kernel
  obtain ⟨analysis, analyzed, same⟩ := exists_of_map_analyze cones
  exact ⟨analysis, analyzed, by simpa using same⟩

/-- A flip-flop of the ring depends on the two inputs that enter the ring, and the one outside
the ring, which an output reads too, on none. -/
theorem cone_exact_ring :
    Declaration.ring.resolve = .ok .ring ∧ ∃ analysis, Netlist.ring.analyze = .ok analysis ∧
      Netlist.ring.Observed (.flipflop 1) ∧ Netlist.ring.Observed (.flipflop 2) ∧
      (∀ input, Netlist.ring.DependsOn (.flipflop 1) (.input input) ↔ input ∈ [0, 1]) ∧
      ∀ input, ¬ Netlist.ring.DependsOn (.flipflop 2) (.input input) := by
  have resolved : Declaration.ring.resolve = .ok .ring := by decide +kernel
  have entry : Netlist.ring.Reads (.output 0) (.flipflop 0) := by decide
  have feedback : Netlist.ring.Reads (.flipflop 0) (.flipflop 1) := by decide
  have outside : Netlist.ring.Reads (.output 1) (.flipflop 2) := by decide
  have inner : Netlist.ring.Observed (.flipflop 1) := ⟨0, by decide, .head entry (.single feedback)⟩
  have outer : Netlist.ring.Observed (.flipflop 2) := ⟨1, by decide, .single outside⟩
  obtain ⟨analysis, analyzed, _, cone, apart⟩ := exists_analyze_ring
  obtain ⟨members, present⟩ := cone_exact resolved analyzed
  refine ⟨resolved, analysis, analyzed, inner, outer, ?_, ?_⟩
  · intro input
    rw [← cone]
    exact (members (.flipflop 1) inner input).symm
  · intro input depends
    have found := (present (.flipflop 2)).mpr ⟨outer, input, depends⟩
    rw [apart] at found
    contradiction

/-- Flip-flops that no output depends on have no cone. So the cone of a flip-flop is complete just
where an output depends on the flip-flop, or where there is no input to miss. -/
theorem flipflop_cone_exact_iff {declaration : Declaration} {analysis : Analysis}
    (resolved : declaration.resolve = .ok netlist) (analyzed : netlist.analyze = .ok analysis)
    (index : Nat) :
    (∀ input, input ∈ analysis.cone (.flipflop index) ↔
        netlist.Observed (.flipflop index) ∧ netlist.DependsOn (.flipflop index) (.input input)) ∧
      ((∀ input, input ∈ analysis.cone (.flipflop index) ↔
          netlist.DependsOn (.flipflop index) (.input input)) ↔
        netlist.Observed (.flipflop index) ∨
          ∀ input, ¬ netlist.DependsOn (.flipflop index) (.input input)) := by
  have orderly := Declaration.orderly_of_resolve resolved
  have members : ∀ input, input ∈ analysis.cone (.flipflop index) ↔
      netlist.Observed (.flipflop index) ∧ netlist.DependsOn (.flipflop index) (.input input) := by
    intro input
    constructor
    · intro member
      have observed := observed_of_mem_cone_of_analyze orderly analyzed member
      exact ⟨observed, (mem_cone_iff_of_analyze orderly analyzed observed input).mp member⟩
    · rintro ⟨observed, depends⟩
      exact (mem_cone_iff_of_analyze orderly analyzed observed input).mpr depends
  refine ⟨members, ?_⟩
  constructor
  · intro complete
    by_cases observed : netlist.Observed (.flipflop index)
    · exact Or.inl observed
    · refine Or.inr fun input depends => observed ?_
      exact ((members input).mp ((complete input).mpr depends)).1
  · rintro (observed | none) input
    · rw [members, and_iff_right observed]
    · rw [members, and_iff_right_of_imp fun depends => absurd depends (none input)]

end Netlist

def Declaration.unread : Declaration where
  name := "Unread"
  clocked := true
  inputs := ["A", "B"]
  flipflops := [0]
  outputs := ["Y"]
  assignments := [⟨.output 0, [.signal (.input 1)]⟩, ⟨.flipflop 0, [.signal (.input 0)]⟩]

namespace Netlist

def unread : Netlist := ⟨Declaration.unread.toHeader, Declaration.unread.assignments⟩

theorem exists_analyze_unread : ∃ analysis, unread.analyze = .ok analysis ∧
    0 ∉ analysis.cone (.flipflop 0) := by
  have known : unread.analyze.map (fun analysis => (analysis.cone (.flipflop 0)).inputs) =
      .ok [] := by
    decide +kernel
  obtain ⟨analysis, analyzed, inputs⟩ := exists_of_map_analyze known
  refine ⟨analysis, analyzed, ?_⟩
  intro member
  have inside : 0 ∈ (analysis.cone (.flipflop 0)).inputs := member
  simp [inputs] at inside

theorem flipflop_cone_exact_iff_unread :
    Declaration.unread.resolve = .ok .unread ∧ ∃ analysis, unread.analyze = .ok analysis ∧
      ¬ unread.Observed (.flipflop 0) ∧ ¬ ∀ input, input ∈ analysis.cone (.flipflop 0) ↔
        unread.DependsOn (.flipflop 0) (.input input) := by
  have resolved : Declaration.unread.resolve = .ok .unread := by decide +kernel
  have reads : unread.Reads (.flipflop 0) (.input 0) := by decide
  obtain ⟨analysis, analyzed, missing⟩ := exists_analyze_unread
  obtain ⟨members, complete_iff⟩ := flipflop_cone_exact_iff resolved analyzed 0
  have unobserved : ¬ unread.Observed (.flipflop 0) := fun observed =>
    missing ((members 0).mpr ⟨observed, .single reads⟩)
  refine ⟨resolved, analysis, analyzed, unobserved, ?_⟩
  rw [complete_iff]
  rintro (observed | none)
  · exact unobserved observed
  · exact none 0 (.single reads)

/-- The input that drives a flip-flop does not stand in its cone if nothing reads it. -/
theorem cone_incomplete_unread :
    Declaration.unread.resolve = .ok .unread ∧ ∃ analysis, unread.analyze = .ok analysis ∧
      unread.DependsOn (.flipflop 0) (.input 0) ∧ 0 ∉ analysis.cone (.flipflop 0) := by
  have reads : unread.Reads (.flipflop 0) (.input 0) := by decide
  obtain ⟨analysis, analyzed, missing⟩ := exists_analyze_unread
  exact ⟨by decide +kernel, analysis, analyzed, .single reads, missing⟩

end Netlist

end GateLevel
