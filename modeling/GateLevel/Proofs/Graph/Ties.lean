import GateLevel.Proofs.Graph.Extremal

/-! Without flip-flops the walks meet the paths of the inlined expressions one after the other, so
of paths of equal length an analysis reports the first one. -/

namespace GateLevel

def Formula.paths : Formula → List (List Token)
  | signal (.input index) => [[.signal (.input index)]]
  | signal _ => []
  | not operand => operand.paths.map (.gate .not :: ·)
  | binary gate first last => (last.paths ++ first.paths).map (.gate (.binary gate) :: ·)

open Walker

namespace Walks

variable {roots : Roots} {before after : Walker}

theorem split {id : NodeId} {rest : List NodeId} (walks : Walks roots (id :: rest) before after) :
    ∃ middle, Walks roots [id] before middle ∧ Walks roots rest middle after := by
  cases walks with
  | pass found entered inner outer => exact ⟨_, .pass found entered inner .nil, outer⟩
  | enter found fresh driven walk inner outer =>
      exact ⟨_, .enter found fresh driven walk inner .nil, outer⟩

theorem gate_below {id : NodeId} {gate : Gate} {children : List NodeId}
    (walks : Walks roots [id] before after)
    (found : roots.arena.node? id = some ⟨.gate gate, children⟩) :
    ∃ below, Walks roots children (before.meet (.gate gate)) below ∧ after.paths = below.paths := by
  cases walks with
  | pass same _ inner outer =>
      rw [found, Option.some.injEq, Node.mk.injEq] at same
      obtain ⟨rfl, rfl⟩ := same
      cases outer
      exact ⟨_, inner, rfl⟩
  | enter same => simp [found] at same

/-- The walk of a node whose formula mentions no flip-flop meets the paths of the formula, in their
order. -/
theorem paths_of_unfolds {id : NodeId} {tree : Formula} (unfolds : roots.arena.Unfolds id tree)
    (free : Path.Combinational tree.tokens) (walks : Walks roots [id] before after) :
    after.paths = before.paths ++ tree.paths.map (before.trail.reverse ++ ·) := by
  induction unfolds generalizing before after with
  | @signal id source found =>
      cases walks with
      | pass same _ inner outer =>
          simp only [found, Option.some.injEq, Node.leaf, Node.mk.injEq] at same
          obtain ⟨rfl, rfl⟩ := same
          cases inner
          cases outer
          cases source with
          | input index => exact before.paths_meet_input index
          | output index => simp [Formula.paths, Walker.meet, Walker.paths, Walker.pushToken,
              Walker.popToken]
          | flipflop index => exact absurd (List.mem_singleton_self _) (free index)
      | @enter _ _ index _ _ _ _ _ _ same =>
          simp only [found, Option.some.injEq, Node.leaf, Node.mk.injEq, Token.signal.injEq] at same
          exact absurd (by simp [Formula.tokens, same.1]) (free index)
  | not found _ ih =>
      obtain ⟨below, inner, same⟩ := walks.gate_below found
      have operand := (Path.combinational_append_iff.mp free).1
      rw [same, ih operand inner, meet_trail]
      simp [Formula.paths, Walker.paths_meet_gate, Function.comp_def]
  | binary found _ _ lastIh firstIh =>
      obtain ⟨below, inner, same⟩ := walks.gate_below found
      obtain ⟨middle, last, first⟩ := inner.split
      have operands := (Path.combinational_append_iff.mp free).1
      obtain ⟨freeFirst, freeLast⟩ := Path.combinational_append_iff.mp operands
      rw [same, firstIh freeFirst first, lastIh freeLast last, last.frame.trail, meet_trail]
      simp [Formula.paths, Walker.paths_meet_gate, Function.comp_def]

end Walks

theorem Walker.paths_of_walkAll {roots : Roots} {trees : Nat → Formula}
    (unfolds : ∀ index root, roots.outputs[index]? = some root →
      roots.arena.Unfolds root (trees index) ∧ Path.Combinational (trees index).tokens)
    {outputs : List Nat} {walker : Walker} (walked : walkAll roots outputs = .ok walker) :
    walker.paths = outputs.flatMap fun index => (trees index).paths := by
  refine (walkAll_induction (motive := fun outputs walker => walker.trail = [] ∧
    walker.paths = outputs.flatMap fun index => (trees index).paths) ⟨rfl, rfl⟩ ?_ walked).2
  rintro done walker output after ⟨trail, before⟩ walkedOutput
  obtain ⟨root, inside, driven, walks, rfl⟩ := walks_of_walkOutput walkedOutput
  obtain ⟨unfolds, free⟩ := unfolds output root driven
  have met := walks.paths_of_unfolds unfolds free
  rw [paths_pushTarget, show (walker.pushTarget (.output output)).trail = [] from trail] at met
  refine ⟨walks.frame.trail.trans trail, ?_⟩
  simpa [before] using met

namespace Netlist

variable {netlist : Netlist}

def Stateless (netlist : Netlist) : Prop :=
  ∀ index < netlist.outputs.length, ∀ tree, netlist.Inlines (.signal (.output index)) tree →
    Path.Combinational tree.tokens

theorem Inlines.declares (orderly : netlist.Orderly) {formula tree : Formula}
    (inlines : netlist.Inlines formula tree)
    (declared : ∀ signal, Token.signal signal ∈ formula.tokens → netlist.Declares signal)
    {signal : Signal} (mentioned : Token.signal signal ∈ tree.tokens) :
    netlist.Declares signal := by
  induction inlines with
  | input => exact declared signal mentioned
  | flipflop => exact declared signal mentioned
  | output driven _ ih =>
      refine ih (fun operand read => ?_) mentioned
      rw [orderly.expression?_eq_some_iff] at driven
      exact orderly.operands_declared _ driven operand ((Assignment.mem_operands_iff ..).mpr read)
  | not _ ih =>
      simp only [Formula.tokens, List.mem_append, List.mem_singleton, reduceCtorEq,
        or_false] at mentioned declared
      exact ih declared mentioned
  | binary _ _ firstIh lastIh =>
      simp only [Formula.tokens, List.mem_append, List.mem_singleton, reduceCtorEq,
        or_false] at mentioned declared
      rcases mentioned with inFirst | inLast
      · exact firstIh (fun signal read => declared signal (Or.inl read)) inFirst
      · exact lastIh (fun signal read => declared signal (Or.inr read)) inLast

theorem stateless_of_flipflops_eq_nil (orderly : netlist.Orderly)
    (combinational : netlist.flipflops = []) : netlist.Stateless := by
  intro index bound tree inlines flipflop mentioned
  have declared : netlist.Declares (.flipflop flipflop) := by
    refine inlines.declares orderly (fun signal read => ?_) mentioned
    obtain rfl := Token.signal.inj (List.mem_singleton.mp read)
    exact bound
  have below : flipflop < netlist.flipflops.length := declared
  simp [combinational] at below

theorem existsUnique_inlines_of_output (orderly : netlist.Orderly)
    (ticked : netlist.graphTick.result = .ok ()) {index : Nat}
    (bound : index < netlist.outputs.length) :
    ∃! tree, netlist.Inlines (.signal (.output index)) tree := by
  obtain ⟨expression, driven⟩ := orderly.exists_expression bound
  obtain ⟨formula, _, tree, rfl, _, _, inlines⟩ :=
    exists_root_of_expression orderly ticked driven
  exact ⟨tree, .output driven inlines, fun _ other => other.unique (.output driven inlines)⟩

theorem exists_trees (orderly : netlist.Orderly) (ticked : netlist.graphTick.result = .ok ()) :
    ∃ trees : Nat → Formula, ∀ index < netlist.outputs.length,
      netlist.Inlines (.signal (.output index)) (trees index) := by
  have each : ∀ index, ∃ tree, index < netlist.outputs.length →
      netlist.Inlines (.signal (.output index)) tree := by
    intro index
    by_cases bound : index < netlist.outputs.length
    · obtain ⟨tree, inlines, _⟩ := existsUnique_inlines_of_output orderly ticked bound
      exact ⟨tree, fun _ => inlines⟩
    · exact ⟨.signal (.output index), fun inside => absurd inside bound⟩
  exact Classical.axiomOfChoice each

theorem unfolds_of_inlines (orderly : netlist.Orderly)
    (ticked : netlist.graphTick.result = .ok ()) {index : Nat} {root : NodeId} {tree : Formula}
    (rooted : netlist.graphTick.circuit.roots.outputs[index]? = some root)
    (inlines : netlist.Inlines (.signal (.output index)) tree) :
    netlist.graphTick.circuit.roots.arena.Unfolds root tree := by
  cases inlines with
  | output driven inlines =>
      obtain ⟨formula, other, known, same, found, unfolds, inlined⟩ :=
        exists_root_of_expression orderly ticked driven
      obtain rfl := Option.some.inj (rooted.symm.trans found)
      rw [Formula.tokens_injective same] at inlined
      exact inlines.unique inlined ▸ unfolds

theorem Stateless.extremes_of_inlines (stateless : netlist.Stateless) (orderly : netlist.Orderly)
    {analysis : Analysis} (analyzed : netlist.analyze = .ok analysis) {trees : Nat → Formula}
    (inlines : ∀ index < netlist.outputs.length,
      netlist.Inlines (.signal (.output index)) (trees index)) :
    analysis.extremes.Of
      ((List.range netlist.outputs.length).flatMap fun index => (trees index).paths) := by
  have ticked := (analyze_eq_ok analyzed).1
  obtain ⟨walker, walked, _, _, _, best⟩ := exists_paths_of_analyze analyzed
  have unfolds : ∀ index root, netlist.graphTick.circuit.roots.outputs[index]? = some root →
      netlist.graphTick.circuit.roots.arena.Unfolds root (trees index) ∧
        Path.Combinational (trees index).tokens := by
    intro index root rooted
    have bound := (List.getElem?_eq_some_iff.mp rooted).1
    rw [(graphTick_grounded ticked).2] at bound
    exact ⟨unfolds_of_inlines orderly ticked rooted (inlines index bound),
      stateless index bound _ (inlines index bound)⟩
  rwa [Walker.paths_of_walkAll unfolds walked] at best

/-- In a netlist without flip-flops the extremes are the first of the longest and the first of the
shortest among all paths of the inlined outputs. -/
theorem extremes_of_inlined {declaration : Declaration} {analysis : Analysis}
    (resolved : declaration.resolve = .ok netlist) (combinational : netlist.flipflops = [])
    (analyzed : netlist.analyze = .ok analysis) :
    (∀ index < netlist.outputs.length, ∃! tree, netlist.Inlines (.signal (.output index)) tree) ∧
      ∀ trees : Nat → Formula, (∀ index < netlist.outputs.length,
          netlist.Inlines (.signal (.output index)) (trees index)) →
        analysis.extremes.Of
          ((List.range netlist.outputs.length).flatMap fun index => (trees index).paths) := by
  have orderly := Declaration.orderly_of_resolve resolved
  have ticked := (analyze_eq_ok analyzed).1
  have stateless := stateless_of_flipflops_eq_nil orderly combinational
  refine ⟨fun index bound => existsUnique_inlines_of_output orderly ticked bound, ?_⟩
  intro trees inlines
  exact stateless.extremes_of_inlines orderly analyzed inlines

end Netlist

def Declaration.cascade : Declaration where
  name := "Cascade"
  clocked := false
  inputs := ["A", "B", "C"]
  flipflops := []
  outputs := ["Y", "Z"]
  assignments := [
    ⟨.output 0, [.signal (.input 0), .signal (.input 1), .gate (.binary .and)]⟩,
    ⟨.output 1, [.signal (.output 0), .signal (.input 2), .gate (.binary .or)]⟩]

namespace Netlist

def cascade : Netlist := ⟨Declaration.cascade.toHeader, Declaration.cascade.assignments⟩

/-- Three paths of the cascade are as short as any, and two as long as any. -/
theorem extremes_of_inlined_cascade :
    Declaration.cascade.resolve = .ok .cascade ∧ ∃ analysis, cascade.analyze = .ok analysis ∧
      analysis.extremes.Of [
        [.gate (.binary .and), .signal (.input 1)],
        [.gate (.binary .and), .signal (.input 0)],
        [.gate (.binary .or), .signal (.input 2)],
        [.gate (.binary .or), .gate (.binary .and), .signal (.input 1)],
        [.gate (.binary .or), .gate (.binary .and), .signal (.input 0)]] ∧
      analysis.extremes.longest = [.gate (.binary .or), .gate (.binary .and), .signal (.input 1)] ∧
      analysis.extremes.shortest = [.gate (.binary .and), .signal (.input 1)] := by
  have resolved : Declaration.cascade.resolve = .ok .cascade := by decide +kernel
  let extremes : Extremes := ⟨[.gate (.binary .or), .gate (.binary .and), .signal (.input 1)],
    [.gate (.binary .and), .signal (.input 1)]⟩
  have known : cascade.analyze.map Analysis.extremes = .ok extremes := by decide +kernel
  obtain ⟨analysis, analyzed, same⟩ := exists_of_map_analyze known
  obtain ⟨_, best⟩ := extremes_of_inlined resolved rfl analyzed
  let front : Formula := .binary .and (.signal (.input 0)) (.signal (.input 1))
  let whole : Formula := .binary .or front (.signal (.input 2))
  let outer : Formula := .binary .or (.signal (.output 0)) (.signal (.input 2))
  have frontDriven : cascade.expression? (.output 0) = some front.tokens := by decide
  have outerDriven : cascade.expression? (.output 1) = some outer.tokens := by decide
  have first : cascade.Inlines (.signal (.output 0)) front :=
    .output frontDriven (.binary .input .input)
  have second : cascade.Inlines (.signal (.output 1)) whole :=
    .output outerDriven (.binary first .input)
  refine ⟨resolved, analysis, analyzed, ?_, by rw [same], by rw [same]⟩
  refine best (fun index => if index = 0 then front else whole) ?_
  intro index bound
  rcases index with _ | _ | index
  · exact first
  · exact second
  · exact absurd (show index + 2 < 2 from bound) (by omega)

end Netlist

end GateLevel
