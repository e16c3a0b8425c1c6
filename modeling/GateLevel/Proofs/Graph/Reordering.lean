import GateLevel.Proofs.Graph.Ties
import GateLevel.Proofs.Renumbering

/-! Outputs declared in another order. The shortest path is the shortest direct path, and which
paths are direct depends on the order where outputs read flip-flops, but not where they read none.
-/

namespace GateLevel

def Signal.reorder (place : Nat → Nat) : Signal → Signal
  | .input index => .input index
  | .output index => .output (place index)
  | .flipflop index => .flipflop index

def Target.reorder (place : Nat → Nat) : Target → Target
  | .output index => .output (place index)
  | .flipflop index => .flipflop index

def Token.reorder (place : Nat → Nat) : Token → Token
  | .gate kind => .gate kind
  | .signal source => .signal (source.reorder place)

def Assignment.reorder (place : Nat → Nat) (assignment : Assignment) : Assignment :=
  ⟨assignment.target.reorder place, assignment.expression.map (Token.reorder place)⟩

def Formula.reorder (place : Nat → Nat) : Formula → Formula
  | signal source => signal (source.reorder place)
  | not operand => not (operand.reorder place)
  | binary gate first last => binary gate (first.reorder place) (last.reorder place)

theorem Formula.tokens_reorder (place : Nat → Nat) (formula : Formula) :
    (formula.reorder place).tokens = formula.tokens.map (Token.reorder place) := by
  induction formula with
  | signal source => rfl
  | not operand ih => simp [reorder, tokens, ih, Token.reorder]
  | binary gate first last firstIh lastIh =>
      simp [reorder, tokens, firstIh, lastIh, Token.reorder]

/-- The second declaration has the outputs of the first in other places, and its assignments in any
order. -/
structure Declaration.Reordering (place : Equiv.Perm Nat) (first second : Declaration) : Prop where
  name : first.name = second.name
  clocked : first.clocked = second.clocked
  inputs : first.inputs = second.inputs
  flipflops : first.flipflops = second.flipflops
  outputs : Relocated place first.outputs second.outputs
  assignments : second.assignments.Perm (first.assignments.map (Assignment.reorder place))

namespace Netlist

structure Reordering (place : Equiv.Perm Nat) (netlist other : Netlist) : Prop extends
    Declaration.Reordering place netlist.declaration other.declaration where
  orderly : netlist.Orderly
  otherOrderly : other.Orderly

namespace Reordering

variable {netlist other : Netlist} {place : Equiv.Perm Nat}

theorem of_resolve {first second : Declaration} (reordering : first.Reordering place second)
    (resolved : first.resolve = .ok netlist) (otherResolved : second.resolve = .ok other) :
    netlist.Reordering place other := by
  refine ⟨?_, Declaration.orderly_of_resolve resolved, Declaration.orderly_of_resolve otherResolved⟩
  obtain ⟨header, perm, _⟩ := Declaration.resolve_eq_ok resolved
  obtain ⟨otherHeader, otherPerm, _⟩ := Declaration.resolve_eq_ok otherResolved
  obtain ⟨name, clocked, inputs, flipflops, outputs, assignments⟩ := reordering
  obtain ⟨_, order⟩ := netlist
  obtain ⟨_, otherOrder⟩ := other
  subst header otherHeader
  exact ⟨name, clocked, inputs, flipflops, outputs,
    otherPerm.trans (assignments.trans (perm.map _).symm)⟩

theorem lt_outputs_iff (reordering : netlist.Reordering place other) (index : Nat) :
    place index < other.outputs.length ↔ index < netlist.outputs.length :=
  reordering.outputs.lt_length_iff index

theorem inlines (reordering : netlist.Reordering place other) {formula tree : Formula}
    (inlines : netlist.Inlines formula tree) : other.Inlines (formula.reorder place) tree := by
  induction inlines with
  | input => exact .input
  | flipflop => exact .flipflop
  | @output index formula tree driven _ ih =>
      refine .output ?_ ih
      rw [reordering.orderly.expression?_eq_some_iff] at driven
      rw [reordering.otherOrderly.expression?_eq_some_iff, formula.tokens_reorder]
      exact reordering.assignments.mem_iff.mpr (List.mem_map_of_mem driven)
  | not _ ih => exact .not ih
  | binary _ _ firstIh lastIh => exact .binary firstIh lastIh

/-- Every output of the second netlist stands for the same formula as one of the first. -/
theorem exists_original (reordering : netlist.Reordering place other)
    (ticked : netlist.graphTick.result = .ok ()) {index : Nat}
    (bound : index < other.outputs.length) {tree : Formula}
    (inlines : other.Inlines (.signal (.output index)) tree) :
    ∃ original < netlist.outputs.length, netlist.Inlines (.signal (.output original)) tree := by
  rw [← place.apply_symm_apply index] at bound inlines
  rw [reordering.lt_outputs_iff] at bound
  obtain ⟨same, inlined, _⟩ := existsUnique_inlines_of_output reordering.orderly ticked bound
  rw [inlines.unique (reordering.inlines inlined)]
  exact ⟨_, bound, inlined⟩

theorem stateless (reordering : netlist.Reordering place other)
    (ticked : netlist.graphTick.result = .ok ()) (stateless : netlist.Stateless) :
    other.Stateless := by
  intro index bound tree inlines
  obtain ⟨original, inside, same⟩ := reordering.exists_original ticked bound inlines
  exact stateless original inside tree same

/-- The order of outputs that read no flip-flops shows in neither length. -/
theorem length_extremes (reordering : netlist.Reordering place other)
    (stateless : netlist.Stateless) {analysis otherAnalysis : Analysis}
    (analyzed : netlist.analyze = .ok analysis)
    (otherAnalyzed : other.analyze = .ok otherAnalysis) :
    otherAnalysis.extremes.shortest.length = analysis.extremes.shortest.length ∧
      otherAnalysis.extremes.longest.length = analysis.extremes.longest.length := by
  have ticked := (analyze_eq_ok analyzed).1
  have otherStateless := reordering.stateless ticked stateless
  obtain ⟨trees, inlines⟩ := exists_trees reordering.orderly ticked
  have otherInlines : ∀ index < other.outputs.length,
      other.Inlines (.signal (.output index)) (trees (place.symm index)) := by
    intro index bound
    rw [← place.apply_symm_apply index, reordering.lt_outputs_iff] at bound
    have inlined := reordering.inlines (inlines _ bound)
    rwa [Formula.reorder, Signal.reorder, place.apply_symm_apply] at inlined
  have best := stateless.extremes_of_inlines reordering.orderly analyzed inlines
  have otherBest :=
    otherStateless.extremes_of_inlines reordering.otherOrderly otherAnalyzed otherInlines
  refine best.length_eq otherBest fun path => ?_
  simp only [List.mem_flatMap, List.mem_range]
  constructor
  · rintro ⟨index, bound, member⟩
    rw [← place.apply_symm_apply index, reordering.lt_outputs_iff] at bound
    exact ⟨place.symm index, bound, member⟩
  · rintro ⟨index, bound, member⟩
    exact ⟨place index, (reordering.lt_outputs_iff index).mpr bound,
      by rwa [place.symm_apply_apply]⟩

end Reordering

end Netlist

def Declaration.detour : Declaration where
  name := "Detour"
  clocked := true
  inputs := ["A"]
  flipflops := [0]
  outputs := ["Y", "Z"]
  assignments := [
    ⟨.output 0, [.signal (.flipflop 0), .gate .not]⟩,
    ⟨.output 1, [.signal (.flipflop 0)]⟩,
    ⟨.flipflop 0, [.signal (.input 0)]⟩]

def Declaration.shortcut : Declaration where
  name := "Detour"
  clocked := true
  inputs := ["A"]
  flipflops := [0]
  outputs := ["Z", "Y"]
  assignments := [
    ⟨.output 1, [.signal (.flipflop 0), .gate .not]⟩,
    ⟨.output 0, [.signal (.flipflop 0)]⟩,
    ⟨.flipflop 0, [.signal (.input 0)]⟩]

theorem relocated_swap {α : Type} (first second : α) :
    Relocated (Equiv.swap 0 1) [first, second] [second, first] := by
  intro index
  rcases index with _ | _ | index
  · rfl
  · rfl
  · rw [Equiv.swap_apply_of_ne_of_ne (by omega) (by omega)]
    rfl

theorem Declaration.reordering_detour : detour.Reordering (Equiv.swap 0 1) shortcut :=
  ⟨rfl, rfl, rfl, rfl, relocated_swap _ _, .refl _⟩

def Declaration.turnedCascade : Declaration where
  name := "Cascade"
  clocked := false
  inputs := ["A", "B", "C"]
  flipflops := []
  outputs := ["Z", "Y"]
  assignments := [
    ⟨.output 1, [.signal (.input 0), .signal (.input 1), .gate (.binary .and)]⟩,
    ⟨.output 0, [.signal (.output 1), .signal (.input 2), .gate (.binary .or)]⟩]

theorem Declaration.reordering_cascade : cascade.Reordering (Equiv.swap 0 1) turnedCascade :=
  ⟨rfl, rfl, rfl, rfl, relocated_swap _ _, .refl _⟩

namespace Netlist

def detour : Netlist := ⟨Declaration.detour.toHeader, Declaration.detour.assignments⟩

def shortcut : Netlist := ⟨Declaration.shortcut.toHeader, Declaration.shortcut.assignments⟩

def turnedCascade : Netlist :=
  ⟨Declaration.turnedCascade.toHeader, Declaration.turnedCascade.assignments⟩

variable {netlist : Netlist}

theorem exists_analyze_detour : ∃ analysis, detour.analyze = .ok analysis ∧
    analysis.extremes.shortest = [.gate .not, .signal (.flipflop 0), .signal (.input 0)] :=
  exists_of_map_analyze (by decide +kernel)

theorem exists_analyze_shortcut : ∃ analysis, shortcut.analyze = .ok analysis ∧
    analysis.extremes.shortest = [.signal (.flipflop 0), .signal (.input 0)] :=
  exists_of_map_analyze (by decide +kernel)

theorem leads_detour : detour.graphTick.circuit.roots.Leads (.input 0) [1, 0]
    [.signal (.flipflop 0), .signal (.input 0)] := by
  have register : detour.graphTick.circuit.roots.arena.node? 1 = some (.leaf (.flipflop 0)) := by
    decide +kernel
  have leaf : detour.graphTick.circuit.roots.arena.node? 0 = some (.leaf (.input 0)) := by
    decide +kernel
  exact .output (by decide +kernel) (.through register (by decide +kernel) (.arrive leaf))

/-- No direct path is shorter than the shortest path, which is direct itself if there is any. So the
order of the outputs does not show in its length if they read no flip-flops. -/
theorem shortest_of_direct {declaration : Declaration} {analysis : Analysis}
    (resolved : declaration.resolve = .ok netlist) (analyzed : netlist.analyze = .ok analysis) :
    (∀ path, netlist.graphTick.circuit.roots.Direct path →
        analysis.extremes.shortest.length ≤ path.length) ∧
      (∀ output input, netlist.DependsOn (.output output) (.input input) →
        netlist.graphTick.circuit.roots.Direct analysis.extremes.shortest) ∧
      (netlist.Stateless → ∀ place second other otherAnalysis,
        declaration.Reordering place second → second.resolve = .ok other →
          other.analyze = .ok otherAnalysis →
          otherAnalysis.extremes.shortest.length = analysis.extremes.shortest.length) := by
  have exists_iff := exists_direct_iff (Declaration.orderly_of_resolve resolved) analyzed
  obtain ⟨walker, _, _, members, proper, best⟩ := exists_paths_of_analyze analyzed
  refine ⟨?_, ?_, ?_⟩
  · exact fun path direct => (best.length_le ((members path).mpr direct)).1
  · intro output input depends
    obtain ⟨path, direct⟩ := exists_iff.mpr ⟨output, input, depends⟩
    have nonempty := List.ne_nil_of_mem ((members path).mpr direct)
    exact (members _).mp (best.mem nonempty).2
  · intro stateless place second other otherAnalysis reordering otherResolved otherAnalyzed
    have both := Reordering.of_resolve reordering resolved otherResolved
    exact (both.length_extremes stateless analyzed otherAnalyzed).1

/-- In the detour the path of the second output is not direct, as the first output comes to the
flip-flop before; and its outputs read the flip-flop, so that their order matters. The cascade has
no flip-flops: in the other order it has another shortest path, which is as short. -/
theorem shortest_of_direct_detour :
    (Declaration.detour.resolve = .ok .detour ∧
      detour.graphTick.circuit.roots.Direct
        [.gate .not, .signal (.flipflop 0), .signal (.input 0)] ∧
      ¬ detour.graphTick.circuit.roots.Direct [.signal (.flipflop 0), .signal (.input 0)] ∧
      ¬ detour.Stateless) ∧
    Declaration.cascade.resolve = .ok .cascade ∧
      Declaration.turnedCascade.resolve = .ok .turnedCascade ∧ cascade.Stateless ∧
      Declaration.cascade.Reordering (Equiv.swap 0 1) .turnedCascade ∧
      ∃ analysis other, cascade.analyze = .ok analysis ∧ turnedCascade.analyze = .ok other ∧
        analysis.extremes.shortest = [.gate (.binary .and), .signal (.input 1)] ∧
        other.extremes.shortest = [.gate (.binary .or), .signal (.input 2)] ∧
        other.extremes.shortest.length = analysis.extremes.shortest.length := by
  refine ⟨?_, ?_⟩
  · have resolved : Declaration.detour.resolve = .ok .detour := by decide +kernel
    have otherResolved : Declaration.shortcut.resolve = .ok .shortcut := by decide +kernel
    obtain ⟨analysis, analyzed, shortest⟩ := exists_analyze_detour
    obtain ⟨other, otherAnalyzed, otherShortest⟩ := exists_analyze_shortcut
    obtain ⟨least, direct, same⟩ := shortest_of_direct resolved analyzed
    have output : detour.Reads (.output 0) (.flipflop 0) := by decide
    have register : detour.Reads (.flipflop 0) (.input 0) := by decide
    refine ⟨resolved, shortest ▸ direct 0 0 (.head output (.single register)), ?_, ?_⟩
    · intro later
      have longer := least _ later
      rw [shortest] at longer
      exact absurd longer (by decide)
    · intro stateless
      have equal :=
        same stateless _ _ _ other Declaration.reordering_detour otherResolved otherAnalyzed
      rw [shortest, otherShortest] at equal
      exact absurd equal (by decide)
  · have resolved : Declaration.cascade.resolve = .ok .cascade := by decide +kernel
    have otherResolved : Declaration.turnedCascade.resolve = .ok .turnedCascade := by
      decide +kernel
    obtain ⟨analysis, analyzed, shortest⟩ : ∃ analysis, cascade.analyze = .ok analysis ∧
        analysis.extremes.shortest = [.gate (.binary .and), .signal (.input 1)] :=
      exists_of_map_analyze (by decide +kernel)
    obtain ⟨other, otherAnalyzed, otherShortest⟩ :
        ∃ analysis, turnedCascade.analyze = .ok analysis ∧
          analysis.extremes.shortest = [.gate (.binary .or), .signal (.input 2)] :=
      exists_of_map_analyze (by decide +kernel)
    have stateless : cascade.Stateless :=
      stateless_of_flipflops_eq_nil (Declaration.orderly_of_resolve resolved) rfl
    obtain ⟨_, _, same⟩ := shortest_of_direct resolved analyzed
    have equal :=
      same stateless _ _ _ other Declaration.reordering_cascade otherResolved otherAnalyzed
    exact ⟨resolved, otherResolved, stateless, Declaration.reordering_cascade, analysis, other,
      analyzed, otherAnalyzed, shortest, otherShortest, equal⟩

/-- The path of the second output of the detour is shorter than the shortest one, and with the
outputs in the other order it is the shortest one. -/
theorem exists_shorter_than_shortest :
    Declaration.detour.resolve = .ok .detour ∧ Declaration.shortcut.resolve = .ok .shortcut ∧
      Declaration.detour.Reordering (Equiv.swap 0 1) .shortcut ∧
      ∃ analysis other, detour.analyze = .ok analysis ∧ shortcut.analyze = .ok other ∧
        (∃ turns path, detour.graphTick.circuit.roots.Leads (.input 0) turns path ∧
          path.length < analysis.extremes.shortest.length) ∧
        other.extremes.shortest.length ≠ analysis.extremes.shortest.length := by
  obtain ⟨analysis, analyzed, shortest⟩ := exists_analyze_detour
  obtain ⟨other, otherAnalyzed, otherShortest⟩ := exists_analyze_shortcut
  refine ⟨by decide +kernel, by decide +kernel, Declaration.reordering_detour, analysis, other,
    analyzed, otherAnalyzed, ?_, ?_⟩
  · exact ⟨[1, 0], _, leads_detour, by rw [shortest]; decide⟩
  · rw [shortest, otherShortest]
    decide

end Netlist

end GateLevel
