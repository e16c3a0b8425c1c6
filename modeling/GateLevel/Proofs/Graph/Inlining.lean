import GateLevel.Proofs.Graph.Cones
import GateLevel.Proofs.Graph.Grafting
import GateLevel.Proofs.Graph.Paths

/-! The graph of a netlist shows its expressions with every output replaced, however often it takes,
by the expression that drives it. Nothing else can be reached in it. -/

namespace GateLevel

def Correspondence.equal {V : Type} (meaning : Interpretation Unit V) :
    Correspondence meaning meaning where
  World _ _ := True
  Related _ _ := Eq
  invert := by
    rintro _ _ _ _ _ rfl
    exact ⟨trivial, fun _ _ same => same, rfl⟩
  combine := by
    rintro _ _ _ _ _ _ _ _ rfl rfl
    exact ⟨trivial, fun _ _ same => same, rfl⟩

theorem Interpretation.evaluate_formula_tokens {scope : Scope Formula} {formula : Formula}
    {trees : Signal → Formula}
    (held : ∀ signal, Token.signal signal ∈ formula.tokens → scope.Holds signal (trees signal)) :
    (Interpretation.formula.evaluate scope formula.tokens ()).1 = .ok (formula.graft trees) := by
  obtain ⟨value, _, evaluated, same⟩ :=
    evaluate_tokens (.equal .formula) trees formula trivial fun signal mentioned =>
      ⟨trees signal, held signal mentioned, rfl⟩
  rw [evaluated, show formula.graft trees = value from same]

namespace Netlist

/-- The formula becomes the other one when the expressions of outputs take the place of the
outputs until none is left. -/
inductive Inlines (netlist : Netlist) : Formula → Formula → Prop
  | input {index} : Inlines netlist (.signal (.input index)) (.signal (.input index))
  | flipflop {index} : Inlines netlist (.signal (.flipflop index)) (.signal (.flipflop index))
  | output {index formula tree} : netlist.expression? (.output index) = some formula.tokens →
      Inlines netlist formula tree → Inlines netlist (.signal (.output index)) tree
  | not {operand tree} : Inlines netlist operand tree → Inlines netlist (.not operand) (.not tree)
  | binary {gate first last firstTree lastTree} : Inlines netlist first firstTree →
      Inlines netlist last lastTree →
      Inlines netlist (.binary gate first last) (.binary gate firstTree lastTree)

variable {netlist : Netlist}

theorem Inlines.unique {formula tree other : Formula} (inlines : netlist.Inlines formula tree)
    (second : netlist.Inlines formula other) : tree = other := by
  induction inlines generalizing other with
  | input =>
      cases second
      rfl
  | flipflop =>
      cases second
      rfl
  | output driven _ ih =>
      cases second with
      | output same inner =>
          rw [driven, Option.some.injEq] at same
          exact ih (Formula.tokens_injective same ▸ inner)
  | not _ ih =>
      cases second with
      | not inner => rw [ih inner]
  | binary _ _ firstIh lastIh =>
      cases second with
      | binary first last => rw [firstIh first, lastIh last]

theorem Inlines.output_not_mem {formula tree : Formula} (inlines : netlist.Inlines formula tree)
    (index : Nat) : Token.signal (.output index) ∉ tree.tokens := by
  induction inlines with
  | input => simp [Formula.tokens]
  | flipflop => simp [Formula.tokens]
  | output _ _ ih => exact ih
  | not _ ih => simpa [Formula.tokens] using ih
  | binary _ _ firstIh lastIh => simpa [Formula.tokens] using ⟨firstIh, lastIh⟩

theorem inlines_graft {trees : Signal → Formula} {formula : Formula}
    (inlined : ∀ signal, Token.signal signal ∈ formula.tokens →
      netlist.Inlines (.signal signal) (trees signal)) :
    netlist.Inlines formula (formula.graft trees) := by
  induction formula with
  | signal source => exact inlined source (by simp [Formula.tokens])
  | not operand ih =>
      exact .not (ih fun signal mentioned => inlined signal (by simp [Formula.tokens, mentioned]))
  | binary gate first last firstIh lastIh =>
      constructor
      · exact firstIh fun signal mentioned => inlined signal (by simp [Formula.tokens, mentioned])
      · exact lastIh fun signal mentioned => inlined signal (by simp [Formula.tokens, mentioned])

def formulaTick (netlist : Netlist) : Tick Unit Formula :=
  (netlist.leafCircuit () .signal).tick .formula (netlist.leafInputs .signal)

def formulaScope (netlist : Netlist) : Scope Formula :=
  ⟨netlist.leafInputs .signal, (netlist.leafCircuit () .signal).state,
    netlist.formulaTick.circuit.outputs.map some⟩

theorem graphTick_drawing (netlist : Netlist) :
    netlist.graphTick.result = netlist.formulaTick.result ∧
      drawing.flip.Circuits netlist.graphTick.circuit netlist.formulaTick.circuit := by
  have plants : drawing.flip.Plants () (fun _ => True) .signal := by
    intro arena signal _ _
    have grown := arena.allocate_extends (.leaf signal)
    exact ⟨⟨trivial, fun _ _ unfolds => unfolds.extend grown⟩, .signal (arena.node?_allocate _)⟩
  exact plants.graphTick (fun _ _ => trivial) trivial

theorem exists_inlines_of_known (orderly : netlist.Orderly)
    (ticked : netlist.formulaTick.result = .ok ()) {assignment : Assignment}
    (member : assignment ∈ netlist.assignments)
    (known : ∀ operand ∈ assignment.operands, ∃ tree, netlist.formulaScope.Holds operand tree ∧
      netlist.Inlines (.signal operand) tree) :
    ∃ formula tree, formula.tokens = assignment.expression ∧
      netlist.formulaTick.circuit.value? assignment.target = some tree ∧
      netlist.Inlines formula tree := by
  have collected : ((netlist.leafCircuit () .signal).tick .formula
      (netlist.leafInputs .signal)).result = .ok () := ticked
  obtain ⟨value, valued, present⟩ := Circuit.tick_value orderly collected member
  obtain ⟨⟨formula, written⟩, _⟩ :=
    (Interpretation.formula.exists_evaluate_iff assignment.expression ()).mp ⟨value, valued⟩
  -- Signals that the expression does not mention may have any tree.
  have each : ∀ signal, ∃ tree, Token.signal signal ∈ formula.tokens →
      netlist.formulaScope.Holds signal tree ∧ netlist.Inlines (.signal signal) tree := by
    intro signal
    by_cases mentioned : signal ∈ assignment.operands
    · obtain ⟨tree, both⟩ := known signal mentioned
      exact ⟨tree, fun _ => both⟩
    · rw [assignment.mem_operands_iff, ← written] at mentioned
      exact ⟨formula, fun present => absurd present mentioned⟩
  obtain ⟨trees, both⟩ := Classical.axiomOfChoice each
  have grafted := Interpretation.evaluate_formula_tokens fun signal mentioned =>
    (both signal mentioned).1
  rw [written] at grafted
  obtain rfl := Except.ok.inj (valued.symm.trans grafted)
  exact ⟨formula, _, written, present, inlines_graft fun signal mentioned =>
    (both signal mentioned).2⟩

theorem exists_inlines (orderly : netlist.Orderly)
    (ticked : netlist.formulaTick.result = .ok ()) :
    ∀ signal, netlist.Declares signal → ∃ tree, netlist.formulaScope.Holds signal tree ∧
      netlist.Inlines (.signal signal) tree := by
  refine orderly.induction ?_ ?_
  · intro signal seeded
    cases seeded with
    | input bound =>
        exact ⟨_, by simp [formulaScope, leafInputs, Scope.Holds, bound], .input⟩
    | flipflop bound =>
        exact ⟨_, by simp [formulaScope, leafCircuit, Scope.Holds, bound], .flipflop⟩
  · intro assignment member index target known
    obtain ⟨formula, tree, written, present, inlines⟩ :=
      exists_inlines_of_known orderly ticked member known
    rw [target, Circuit.value?] at present
    have driven : netlist.expression? (.output index) = some formula.tokens := by
      rw [orderly.expression?_eq_some_iff, ← target, written]
      exact member
    exact ⟨tree, by simp [formulaScope, Scope.Holds, present], .output driven inlines⟩

theorem exists_root_of_value {target : Target} {tree : Formula}
    (present : netlist.formulaTick.circuit.value? target = some tree) :
    ∃ root, netlist.graphTick.circuit.roots.root? target = some root ∧
      netlist.graphTick.circuit.context.Unfolds root tree := by
  obtain ⟨_, drawn⟩ := netlist.graphTick_drawing
  have read {formulas : List Formula} {ids : List NodeId} {index : Nat}
      (both : List.Forall₂ netlist.graphTick.circuit.context.Unfolds ids formulas)
      (found : formulas[index]? = some tree) :
      ∃ root, ids[index]? = some root ∧ netlist.graphTick.circuit.context.Unfolds root tree := by
    have related := Correspondence.rel_getElem? both index
    rw [found] at related
    generalize ids[index]? = root at related ⊢
    cases related with
    | some unfolds => exact ⟨_, rfl, unfolds⟩
  cases target with
  | output index => exact read drawn.outputs present
  | flipflop index => exact read drawn.state present

/-- The driving node of every driven target unfolds to what the expression of the target inlines
to. -/
theorem exists_root_of_expression (orderly : netlist.Orderly)
    (ticked : netlist.graphTick.result = .ok ()) {target : Target} {expression : List Token}
    (driven : netlist.expression? target = some expression) :
    ∃ formula root tree, formula.tokens = expression ∧
      netlist.graphTick.circuit.roots.root? target = some root ∧
      netlist.graphTick.circuit.context.Unfolds root tree ∧ netlist.Inlines formula tree := by
  have collected := netlist.graphTick_drawing.1.symm.trans ticked
  rw [orderly.expression?_eq_some_iff] at driven
  obtain ⟨formula, tree, written, present, inlines⟩ :=
    exists_inlines_of_known orderly collected driven fun operand mentioned =>
      exists_inlines orderly collected operand
        (orderly.operands_declared _ driven operand mentioned)
  obtain ⟨root, rooted, unfolds⟩ := exists_root_of_value present
  exact ⟨formula, root, tree, written, rooted, unfolds, inlines⟩

theorem exists_root_of_undriven (ticked : netlist.graphTick.result = .ok ()) {index : Nat}
    (bound : index < netlist.flipflops.length)
    (undriven : netlist.expression? (.flipflop index) = none) :
    ∃ root, netlist.graphTick.circuit.roots.root? (.flipflop index) = some root ∧
      netlist.graphTick.circuit.context.node? root = some (.leaf (.flipflop index)) := by
  have collected : ((netlist.leafCircuit () .signal).tick .formula
      (netlist.leafInputs .signal)).result = .ok () := netlist.graphTick_drawing.1.symm.trans ticked
  have kept := Circuit.tick_undriven collected ((expression?_eq_none_iff ..).mp undriven)
  have present : netlist.formulaTick.circuit.value? (.flipflop index) =
      some (.signal (.flipflop index)) := by
    rw [Circuit.value?, formulaTick, kept]
    simp [leafCircuit, bound]
  obtain ⟨root, rooted, unfolds⟩ := exists_root_of_value present
  cases unfolds with
  | signal found => exact ⟨root, rooted, found⟩

end Netlist

def Arena.Plain (arena : Arena) (id : NodeId) : Prop :=
  ∃ tree, arena.Unfolds id tree ∧ ∀ index, Token.signal (.output index) ∉ tree.tokens

namespace Arena.Plain

variable {arena : Arena} {id : NodeId} {node : Node}

theorem child (plain : arena.Plain id) (found : arena.node? id = some node) {child : NodeId}
    (member : child ∈ node.children) : arena.Plain child := by
  obtain ⟨tree, unfolds, none⟩ := plain
  cases unfolds with
  | signal same =>
      obtain rfl := Option.some.inj (found.symm.trans same)
      simp [Node.leaf] at member
  | not same operand =>
      obtain rfl := Option.some.inj (found.symm.trans same)
      simp only [List.mem_singleton] at member
      subst member
      exact ⟨_, operand, by simpa [Formula.tokens] using none⟩
  | binary same last first =>
      obtain rfl := Option.some.inj (found.symm.trans same)
      simp only [Formula.tokens, List.mem_append, not_or] at none
      simp only [List.mem_cons, List.not_mem_nil, or_false] at member
      rcases member with rfl | rfl
      · exact ⟨_, last, fun index => (none index).1.2⟩
      · exact ⟨_, first, fun index => (none index).1.1⟩

theorem fits {netlist : Netlist} (plain : arena.Plain id) (found : arena.node? id = some node)
    (fits : node.Fits netlist.Declares id) :
    node.Fits (Seeded netlist.inputs.length netlist.flipflops.length) id := by
  obtain ⟨token, children⟩ := node
  cases token with
  | gate gate => exact fits
  | signal source =>
      obtain ⟨rfl, declared⟩ := fits
      refine ⟨rfl, ?_⟩
      cases source with
      | input index => exact .input declared
      | flipflop index => exact .flipflop declared
      | output index =>
          obtain ⟨tree, unfolds, none⟩ := plain
          have leaf : arena.Unfolds id (.signal (.output index)) := .signal found
          exact absurd (by simp [unfolds.unique leaf, Formula.tokens]) (none index)

end Arena.Plain

namespace Roots

/-- The graph shows just the expressions of the netlist, outputs being inlined. -/
structure Faithful (roots : Roots) (netlist : Netlist) : Prop where
  nodes : ∀ target root id, roots.root? target = some root →
    Relation.ReflTransGen roots.Step root id → ∃ node, roots.arena.node? id = some node ∧
      node.Fits (Seeded netlist.inputs.length netlist.flipflops.length) id
  outputs : ∀ index < netlist.outputs.length,
    ∃ expression, netlist.expression? (.output index) = some expression
  driven : ∀ target expression, netlist.expression? target = some expression →
    ∃ formula root, formula.tokens = expression ∧ roots.root? target = some root ∧
      (∃ tree, roots.arena.Unfolds root tree) ∧
      ∀ tree, roots.arena.Unfolds root tree ↔ netlist.Inlines formula tree
  undriven : ∀ index < netlist.flipflops.length, netlist.expression? (.flipflop index) = none →
    ∃ root, roots.root? (.flipflop index) = some root ∧
      roots.arena.node? root = some (.leaf (.flipflop index))

end Roots

namespace Netlist

variable {netlist : Netlist}

theorem declares_of_root (ticked : netlist.graphTick.result = .ok ()) {target : Target}
    {root : NodeId} (rooted : netlist.graphTick.circuit.roots.root? target = some root) :
    netlist.Declares target.signal := by
  cases target with
  | output index =>
      have bound := (List.getElem?_eq_some_iff.mp rooted).1
      rw [(graphTick_grounded ticked).2] at bound
      exact bound
  | flipflop index =>
      have bound : index < netlist.graphTick.circuit.state.length :=
        (List.getElem?_eq_some_iff.mp rooted).1
      rw [netlist.graphTick_runs.state] at bound
      exact bound

theorem Orderly.exists_expression (orderly : netlist.Orderly) {index : Nat}
    (bound : index < netlist.outputs.length) :
    ∃ expression, netlist.expression? (.output index) = some expression := by
  obtain ⟨assignment, member, target⟩ := orderly.outputs_driven index bound
  refine ⟨assignment.expression, ?_⟩
  rw [orderly.expression?_eq_some_iff, ← target]
  exact member

theorem plain_of_root (orderly : netlist.Orderly) (ticked : netlist.graphTick.result = .ok ())
    {target : Target} {root : NodeId}
    (rooted : netlist.graphTick.circuit.roots.root? target = some root) :
    netlist.graphTick.circuit.context.Plain root := by
  have declared := declares_of_root ticked rooted
  cases driven : netlist.expression? target with
  | some expression =>
      obtain ⟨formula, other, tree, _, same, unfolds, inlines⟩ :=
        exists_root_of_expression orderly ticked driven
      obtain rfl := Option.some.inj (rooted.symm.trans same)
      exact ⟨tree, unfolds, inlines.output_not_mem⟩
  | none =>
      cases target with
      | output index =>
          -- Only a flip-flop may be left without an assignment.
          obtain ⟨expression, found⟩ := orderly.exists_expression declared
          simp [driven] at found
      | flipflop index =>
          obtain ⟨other, same, leaf⟩ := exists_root_of_undriven ticked declared driven
          obtain rfl := Option.some.inj (rooted.symm.trans same)
          exact ⟨_, .signal leaf, by simp [Formula.tokens]⟩

theorem plain_of_path (orderly : netlist.Orderly) (ticked : netlist.graphTick.result = .ok ())
    {id next : NodeId} (plain : netlist.graphTick.circuit.context.Plain id)
    (path : Relation.ReflTransGen netlist.graphTick.circuit.roots.Step id next) :
    netlist.graphTick.circuit.context.Plain next := by
  induction path with
  | refl => exact plain
  | tail _ step ih =>
      cases step with
      | child found member => exact ih.child found member
      | @through index _ _ _ entered =>
          have rooted : netlist.graphTick.circuit.roots.root? (.flipflop index) = some _ := entered
          exact plain_of_root orderly ticked rooted

/-- The graph that an analysis walks is faithful to the netlist. -/
theorem faithful_of_analyze {declaration : Declaration} {analysis : Analysis}
    (resolved : declaration.resolve = .ok netlist) (analyzed : netlist.analyze = .ok analysis) :
    netlist.graphTick.circuit.roots.Faithful netlist := by
  have orderly := Declaration.orderly_of_resolve resolved
  have ticked := (analyze_eq_ok analyzed).1
  constructor
  · intro target root id rooted path
    have plain := plain_of_path orderly ticked (plain_of_root orderly ticked rooted) path
    obtain ⟨_, beside⟩ := netlist.exists_beside_graphTick
    have present : id < netlist.graphTick.circuit.context.size := by
      obtain ⟨_, unfolds, _⟩ := plain
      exact unfolds.lt_size
    obtain ⟨node, found⟩ := (Arena.lt_size_iff _ id).mp present
    exact ⟨node, found, plain.fits found (beside.world id node found)⟩
  · intro index bound
    exact orderly.exists_expression bound
  · intro target expression driven
    obtain ⟨formula, root, tree, written, rooted, unfolds, inlines⟩ :=
      exists_root_of_expression orderly ticked driven
    refine ⟨formula, root, written, rooted, ⟨tree, unfolds⟩, fun other => ⟨?_, ?_⟩⟩
    · intro same
      rwa [← unfolds.unique same]
    · intro same
      rwa [← inlines.unique same]
  · intro index bound undriven
    exact exists_root_of_undriven ticked bound undriven

/-- The second output of the ring reads the first one, which is inlined; the third flip-flop is
not driven. -/
theorem faithful_of_analyze_ring :
    Declaration.ring.resolve = .ok .ring ∧ (∃ analysis, Netlist.ring.analyze = .ok analysis) ∧
      (∃ root, ring.graphTick.circuit.roots.root? (.output 1) = some root ∧
        ring.graphTick.circuit.context.Unfolds root (.binary .or
          (.binary .and (.binary .xor (.signal (.input 0)) (.signal (.flipflop 0)))
            (.signal (.input 2)))
          (.signal (.flipflop 2)))) ∧
      ∃ root, ring.graphTick.circuit.roots.root? (.flipflop 2) = some root ∧
        ring.graphTick.circuit.context.node? root = some (.leaf (.flipflop 2)) := by
  have resolved : Declaration.ring.resolve = .ok .ring := by decide +kernel
  obtain ⟨analysis, analyzed, _⟩ := exists_analyze_ring
  have faithful := faithful_of_analyze resolved analyzed
  let front : Formula := .binary .xor (.signal (.input 0)) (.signal (.flipflop 0))
  let whole : Formula :=
    .binary .or (.binary .and (.signal (.output 0)) (.signal (.input 2))) (.signal (.flipflop 2))
  obtain ⟨formula, root, written, rooted, _, unfolds⟩ :=
    faithful.driven (.output 1) whole.tokens (by decide)
  obtain rfl := Formula.tokens_injective written
  have driven : ring.expression? (.output 0) = some front.tokens := by decide
  have inlined : ring.Inlines (.signal (.output 0)) front :=
    .output driven (.binary .input .flipflop)
  refine ⟨resolved, ⟨analysis, analyzed⟩, ⟨root, rooted, ?_⟩, ?_⟩
  · exact (unfolds _).mpr (.binary (.binary inlined .input) .flipflop)
  · exact faithful.undriven 2 (by decide) (by decide)

end Netlist

end GateLevel
