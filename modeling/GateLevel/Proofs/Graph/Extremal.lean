import GateLevel.Proofs.Graph.Inlining
import GateLevel.Proofs.Graph.Progress

/-! The longest and the shortest path of an analysis are paths of the graph, and they bound all
paths without flip-flops. -/

namespace GateLevel

namespace Roots

/-- The path leads from the root of an output to an input, and no flip-flop stands on it twice. -/
def Genuine (roots : Roots) (path : List Token) : Prop :=
  (∃ input turns, roots.Leads (.input input) turns path) ∧ Path.Simple path

theorem direct_of_combinational {roots : Roots} {input : Nat} {turns : List Nat}
    {path : List Token} (leads : roots.Leads (.input input) turns path)
    (combinational : Path.Combinational path) : roots.Direct path :=
  ⟨⟨input, turns, leads⟩, prompt_of_combinational combinational⟩

theorem Direct.genuine {roots : Roots} {path : List Token} (direct : roots.Direct path) :
    roots.Genuine path :=
  ⟨direct.1, direct.2.simple⟩

end Roots

namespace Walker

theorem paths_ne_nil_of_mem_cone {walker : Walker} {target : Target} {input : Nat}
    (member : input ∈ walker.cones.cone target) : walker.paths ≠ [] := by
  rw [mem_cones_iff] at member
  induction member with
  | start present =>
      obtain ⟨trail, under, sighted, _⟩ := (Cones.mem_cone_ofSightings_iff ..).mp present
      exact List.ne_nil_of_mem ((Sighting.mem_paths_iff ..).mpr ⟨input, trail, under, sighted, rfl⟩)
  | pass _ _ ih => exact ih

end Walker

namespace Netlist

variable {netlist : Netlist}

theorem graphTick_bare (netlist : Netlist) : netlist.graphTick.circuit.roots.Bare := by
  obtain ⟨_, beside⟩ := netlist.exists_beside_graphTick
  intro id signal children found
  exact (beside.world id _ found).1

/-- An analysis chooses among the paths that its walker has met, which are the direct ones. -/
theorem exists_paths_of_analyze {analysis : Analysis} (analyzed : netlist.analyze = .ok analysis) :
    ∃ walker, Walker.walkAll netlist.graphTick.circuit.roots (List.range netlist.outputs.length) =
        .ok walker ∧ analysis.cones = walker.cones ∧
      (∀ path, path ∈ walker.paths ↔ netlist.graphTick.circuit.roots.Direct path) ∧
      [] ∉ walker.paths ∧ analysis.extremes.Of walker.paths := by
  obtain ⟨ticked, walker, walked, same, cones⟩ := exists_walker_of_analyze analyzed
  have inOrder := walked
  rw [← (graphTick_grounded ticked).2] at inOrder
  have members := Walker.mem_paths_iff_direct netlist.graphTick_bare inOrder
  have proper : [] ∉ walker.paths := by
    intro empty
    obtain ⟨⟨_, _, leads⟩, _⟩ := (members []).mp empty
    simpa using leads.getLast?
  exact ⟨walker, walked, cones, members, proper, same ▸ Walker.extremes_of_paths proper⟩

theorem exists_direct_iff (orderly : netlist.Orderly) {analysis : Analysis}
    (analyzed : netlist.analyze = .ok analysis) :
    (∃ path, netlist.graphTick.circuit.roots.Direct path) ↔
      ∃ output input, netlist.DependsOn (.output output) (.input input) := by
  have draws := graph_draws orderly (analyze_eq_ok analyzed).1
  constructor
  · rintro ⟨path, ⟨input, turns, leads⟩, _⟩
    obtain ⟨output, reaches⟩ := leads.reaches
    exact ⟨output, input, dependsOn_of_ne
      (draws.path_of_sees orderly (Roots.sees_of_reaches reaches)) (by simp)⟩
  · rintro ⟨output, input, depends⟩
    obtain ⟨walker, _, cones, members, _⟩ := exists_paths_of_analyze analyzed
    have observed : netlist.Observed (.output output) := orderly.output_lt_of_dependsOn depends
    have member := (mem_cone_iff_of_analyze orderly analyzed observed input).mpr depends
    rw [Analysis.cone, cones] at member
    obtain ⟨path, met⟩ := List.exists_mem_of_ne_nil _ (Walker.paths_ne_nil_of_mem_cone member)
    exact ⟨path, (members path).mp met⟩

/-- Both extremes are empty if no output depends on an input. Otherwise they are paths of the graph,
and no path without flip-flops is longer than the longest or shorter than the shortest. -/
theorem extremes_bound {declaration : Declaration} {analysis : Analysis}
    (resolved : declaration.resolve = .ok netlist) (analyzed : netlist.analyze = .ok analysis) :
    (analysis.extremes.longest = [] ∧ analysis.extremes.shortest = [] ↔
        ∀ output input, ¬ netlist.DependsOn (.output output) (.input input)) ∧
      (∀ output input, netlist.DependsOn (.output output) (.input input) →
        netlist.graphTick.circuit.roots.Genuine analysis.extremes.longest ∧
          netlist.graphTick.circuit.roots.Genuine analysis.extremes.shortest) ∧
      analysis.extremes.shortest.length ≤ analysis.extremes.longest.length ∧
      ∀ input turns path, netlist.graphTick.circuit.roots.Leads (.input input) turns path →
        Path.Combinational path → analysis.extremes.shortest.length ≤ path.length ∧
          path.length ≤ analysis.extremes.longest.length := by
  have exists_iff := exists_direct_iff (Declaration.orderly_of_resolve resolved) analyzed
  obtain ⟨walker, _, _, members, proper, best⟩ := exists_paths_of_analyze analyzed
  have none_iff : walker.paths = [] ↔
      ∀ output input, ¬ netlist.DependsOn (.output output) (.input input) := by
    rw [List.eq_nil_iff_forall_not_mem]
    simpa only [not_exists, ← members] using not_congr exists_iff
  have empty_iff := best.eq_nil_iff proper
  refine ⟨empty_iff.trans none_iff, ?_, ?_, ?_⟩
  · intro output input depends
    have nonempty : walker.paths ≠ [] := fun none => none_iff.mp none output input depends
    obtain ⟨longest, shortest⟩ := best.mem nonempty
    exact ⟨((members _).mp longest).genuine, ((members _).mp shortest).genuine⟩
  · by_cases none : walker.paths = []
    · rw [(empty_iff.mpr none).2]
      exact Nat.zero_le _
    · exact (best.length_le (best.mem none).1).1
  · intro input turns path leads combinational
    exact best.length_le ((members path).mpr (Roots.direct_of_combinational leads combinational))

/-- The longest path of the ring goes through both flip-flops that feed each other. A path from the
second output, which reads the first one, lies between the extremes. -/
theorem extremes_bound_ring :
    Declaration.ring.resolve = .ok .ring ∧ ∃ analysis, Netlist.ring.analyze = .ok analysis ∧
      ring.graphTick.circuit.roots.Genuine [.gate (.binary .xor), .signal (.flipflop 0),
        .gate (.binary .and), .signal (.flipflop 1), .gate (.binary .or), .signal (.input 1)] ∧
      ring.graphTick.circuit.roots.Leads (.input 0) [1, 1, 1, 1] [.gate (.binary .or),
        .gate (.binary .and), .gate (.binary .xor), .signal (.input 0)] ∧
      analysis.extremes.shortest.length ≤ 4 ∧ 4 ≤ analysis.extremes.longest.length := by
  have resolved : Declaration.ring.resolve = .ok .ring := by decide +kernel
  let extremes : Extremes := ⟨[.gate (.binary .xor), .signal (.flipflop 0), .gate (.binary .and),
    .signal (.flipflop 1), .gate (.binary .or), .signal (.input 1)],
    [.gate (.binary .xor), .signal (.input 0)]⟩
  have known : ring.analyze.map Analysis.extremes = .ok extremes := by decide +kernel
  obtain ⟨analysis, analyzed, same⟩ := exists_of_map_analyze known
  obtain ⟨_, genuine, _, bound⟩ := extremes_bound resolved analyzed
  rw [same] at genuine
  have reads : ring.Reads (.output 0) (.input 0) := by decide
  have leads : ring.graphTick.circuit.roots.Leads (.input 0) [1, 1, 1, 1] [.gate (.binary .or),
      .gate (.binary .and), .gate (.binary .xor), .signal (.input 0)] := by
    have or : ring.graphTick.circuit.roots.arena.node? 11 =
      some ⟨.gate (.binary .or), [5, 10]⟩ := by decide +kernel
    have and : ring.graphTick.circuit.roots.arena.node? 10 =
      some ⟨.gate (.binary .and), [2, 9]⟩ := by decide +kernel
    have xor : ring.graphTick.circuit.roots.arena.node? 9 =
      some ⟨.gate (.binary .xor), [3, 0]⟩ := by decide +kernel
    have leaf : ring.graphTick.circuit.roots.arena.node? 0 = some (.leaf (.input 0)) := by
      decide +kernel
    exact .output (by decide +kernel)
      (.child or rfl (.child and rfl (.child xor rfl (.arrive leaf))))
  exact ⟨resolved, analysis, analyzed, (genuine 0 0 (.single reads)).1, leads,
    bound 0 _ _ leads (by simp [Path.Combinational])⟩

end Netlist

end GateLevel
