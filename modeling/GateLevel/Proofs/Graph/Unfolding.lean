import GateLevel.Proofs.Graph.Leaves
import GateLevel.Proofs.Graph.Sharing
import GateLevel.Proofs.Runs
import GateLevel.Proofs.Verdict

/-! Every node of the graph of a circuit unfolds to a formula, and the levels of these formulas are
what a simulator computes, tick by tick. -/

namespace GateLevel

theorem existsUnique_forall₂ {α β : Type} {related : α → β → Prop} {values : List α}
    (each : ∀ value ∈ values, ∃! partner, related value partner) :
    ∃! partners, List.Forall₂ related values partners := by
  induction values with
  | nil => exact ⟨[], .nil, fun _ none => List.forall₂_nil_left_iff.mp none⟩
  | cons value rest ih =>
      obtain ⟨partner, holds, only⟩ := each value (by simp)
      obtain ⟨partners, others, onlyRest⟩ :=
        ih fun other member => each other (List.mem_cons_of_mem _ member)
      refine ⟨partner :: partners, .cons holds others, ?_⟩
      rintro _ (_ | ⟨same, more⟩)
      rw [only _ same, onlyRest _ more]

namespace Node

def Fits (allowed : Signal → Prop) (id : NodeId) (node : Node) : Prop :=
  match node.token with
  | .gate gate => node.children.length = gate.arity ∧ ∀ child ∈ node.children, child < id
  | .signal signal => node.children = [] ∧ allowed signal

theorem Fits.child_lt {allowed : Signal → Prop} {id : NodeId} {node : Node}
    (fits : node.Fits allowed id) {child : NodeId} (member : child ∈ node.children) :
    child < id := by
  obtain ⟨token, children⟩ := node
  cases token with
  | gate gate => exact fits.2 child member
  | signal signal =>
      obtain rfl : children = [] := fits.1
      simp at member

end Node

namespace Arena

def Proper (allowed : Signal → Prop) (arena : Arena) : Prop :=
  ∀ id node, arena.node? id = some node → node.Fits allowed id

inductive Unfolds (arena : Arena) : NodeId → Formula → Prop
  | signal {id source} : arena.node? id = some (.leaf source) → Unfolds arena id (.signal source)
  | not {id child operand} : arena.node? id = some ⟨.gate .not, [child]⟩ →
      Unfolds arena child operand → Unfolds arena id (.not operand)
  | binary {id gate lastChild firstChild first last} :
      arena.node? id = some ⟨.gate (.binary gate), [lastChild, firstChild]⟩ →
      Unfolds arena lastChild last → Unfolds arena firstChild first →
      Unfolds arena id (.binary gate first last)

def Carries (arena : Arena) (leaf : Signal → Level) (id : NodeId) (level : Level) : Prop :=
  ∃ formula, arena.Unfolds id formula ∧ formula.level leaf = level

variable {arena : Arena} {allowed : Signal → Prop} {leaf : Signal → Level}

theorem proper_empty (allowed : Signal → Prop) : empty.Proper allowed := by
  intro id node found
  simp [empty, node?] at found

namespace Unfolds

theorem lt_size {id : NodeId} {formula : Formula} (unfolds : arena.Unfolds id formula) :
    id < arena.size := by
  cases unfolds with
  | signal found => exact (arena.lt_size_iff id).mpr ⟨_, found⟩
  | not found => exact (arena.lt_size_iff id).mpr ⟨_, found⟩
  | binary found => exact (arena.lt_size_iff id).mpr ⟨_, found⟩

theorem extend {before after : Arena} {id : NodeId} {formula : Formula}
    (unfolds : before.Unfolds id formula) (grown : before.Extends after) :
    after.Unfolds id formula := by
  induction unfolds with
  | signal found => exact .signal (grown _ _ found)
  | not found _ ih => exact .not (grown _ _ found) ih
  | binary found _ _ lastIh firstIh => exact .binary (grown _ _ found) lastIh firstIh

theorem unique {id : NodeId} {formula other : Formula} (first : arena.Unfolds id formula)
    (second : arena.Unfolds id other) : formula = other := by
  induction first generalizing other with
  | signal found =>
      cases second with
      | signal same => simpa [found, Node.leaf] using same
      | not same _ => simp [found, Node.leaf] at same
      | binary same _ _ => simp [found, Node.leaf] at same
  | not found _ ih =>
      cases second with
      | signal same => simp [found, Node.leaf] at same
      | not same below =>
          simp only [found, Option.some.injEq, Node.mk.injEq, List.cons.injEq, and_true,
            true_and] at same
          rw [ih (same ▸ below)]
      | binary same _ _ => simp [found] at same
  | binary found _ _ lastIh firstIh =>
      cases second with
      | signal same => simp [found, Node.leaf] at same
      | not same _ => simp [found] at same
      | binary same last first =>
          simp only [found, Option.some.injEq, Node.mk.injEq, Token.gate.injEq, Gate.binary.injEq,
            List.cons.injEq, and_true] at same
          obtain ⟨rfl, rfl, rfl⟩ := same
          rw [lastIh last, firstIh first]

end Unfolds

theorem Proper.exists_unfolds (proper : arena.Proper allowed) {id : NodeId}
    (bound : id < arena.size) : ∃ formula, arena.Unfolds id formula := by
  induction id using Nat.strongRecOn with
  | ind id ih =>
      obtain ⟨⟨token, children⟩, found⟩ := (arena.lt_size_iff id).mp bound
      have fits := proper id _ found
      have below : ∀ child ∈ children, ∃ formula, arena.Unfolds child formula := by
        intro child member
        have earlier := fits.child_lt member
        exact ih child earlier (Nat.lt_trans earlier bound)
      rcases token with (_ | gate) | source
      · obtain ⟨child, rfl⟩ := List.length_eq_one_iff.mp fits.1
        obtain ⟨operand, unfolds⟩ := below child (by simp)
        exact ⟨.not operand, .not found unfolds⟩
      · obtain ⟨lastChild, firstChild, rfl⟩ := List.length_eq_two.mp fits.1
        obtain ⟨last, lastUnfolds⟩ := below lastChild (by simp)
        obtain ⟨first, firstUnfolds⟩ := below firstChild (by simp)
        exact ⟨.binary gate first last, .binary found lastUnfolds firstUnfolds⟩
      · obtain rfl : children = [] := fits.1
        exact ⟨.signal source, .signal found⟩

theorem Proper.existsUnique_carries (proper : arena.Proper allowed) (leaf : Signal → Level)
    {id : NodeId} (bound : id < arena.size) : ∃! level, arena.Carries leaf id level := by
  obtain ⟨formula, unfolds⟩ := proper.exists_unfolds bound
  refine ⟨formula.level leaf, ⟨formula, unfolds, rfl⟩, ?_⟩
  rintro _ ⟨other, otherUnfolds, rfl⟩
  rw [unfolds.unique otherUnfolds]

theorem Proper.exists_carries (proper : arena.Proper allowed) (leaf : Signal → Level)
    {ids : List NodeId} (present : ∀ id ∈ ids, id < arena.size) :
    ∃ levels, List.Forall₂ (arena.Carries leaf) ids levels :=
  ExistsUnique.exists <|
    existsUnique_forall₂ fun id member => proper.existsUnique_carries leaf (present id member)

theorem Carries.extend {before after : Arena} {id : NodeId} {level : Level}
    (carries : before.Carries leaf id level) (grown : before.Extends after) :
    after.Carries leaf id level := by
  obtain ⟨formula, unfolds, rfl⟩ := carries
  exact ⟨formula, unfolds.extend grown, rfl⟩

theorem Carries.lt_size {id : NodeId} {level : Level} (carries : arena.Carries leaf id level) :
    id < arena.size := by
  obtain ⟨formula, unfolds, _⟩ := carries
  exact unfolds.lt_size

theorem lt_size_of_carry {ids : List NodeId} {levels : List Level}
    (carry : List.Forall₂ (arena.Carries leaf) ids levels) : ∀ id ∈ ids, id < arena.size := by
  induction carry with
  | nil => simp
  | cons first _ ih => exact List.forall_mem_cons.mpr ⟨first.lt_size, ih⟩

theorem Proper.allocate (proper : arena.Proper allowed) {node : Node}
    (fits : node.Fits allowed arena.size) : (arena.allocate node).2.Proper allowed := by
  simp only [Arena.allocate]
  split
  · exact proper
  · intro id other found
    simp only [node?, Array.getElem?_push] at found
    split at found
    · rename_i last
      rw [← Option.some.inj found, last]
      exact fits
    · exact proper id other found

theorem carries_allocate_not {id : NodeId} {level : Level} (carries : arena.Carries leaf id level) :
    (arena.allocate ⟨.gate .not, [id]⟩).2.Carries leaf (arena.allocate ⟨.gate .not, [id]⟩).1
      level.not := by
  obtain ⟨operand, unfolds, rfl⟩ := carries
  exact ⟨.not operand, .not (arena.node?_allocate _) (unfolds.extend (arena.allocate_extends _)),
    rfl⟩

theorem carries_allocate_binary (gate : BinaryGate) {last first : NodeId}
    {lastLevel firstLevel : Level} (lastCarries : arena.Carries leaf last lastLevel)
    (firstCarries : arena.Carries leaf first firstLevel) :
    (arena.allocate ⟨.gate (.binary gate), [last, first]⟩).2.Carries leaf
      (arena.allocate ⟨.gate (.binary gate), [last, first]⟩).1
      (gate.apply firstLevel lastLevel) := by
  obtain ⟨lastFormula, lastUnfolds, rfl⟩ := lastCarries
  obtain ⟨firstFormula, firstUnfolds, rfl⟩ := firstCarries
  have grown := arena.allocate_extends ⟨.gate (.binary gate), [last, first]⟩
  exact ⟨.binary gate firstFormula lastFormula,
    .binary (arena.node?_allocate _) (lastUnfolds.extend grown) (firstUnfolds.extend grown), rfl⟩

theorem length_allocateAll (nodes : List Node) (arena : Arena) :
    (arena.allocateAll nodes).1.length = nodes.length := by
  induction nodes generalizing arena with
  | nil => rfl
  | cons node rest ih => exact congrArg Nat.succ (ih _)

theorem length_leaves (signal : Nat → Signal) (count : Nat) (arena : Arena) :
    (arena.leaves signal count).1.length = count := by
  simp only [leaves, length_allocateAll, List.length_map, List.length_range]

end Arena

def unfolding (allowed : Signal → Prop) (leaf : Signal → Level) :
    Correspondence .graph .level where
  World arena _ := arena.Proper allowed
  Related arena _ id level := arena.Carries leaf id level
  invert := by
    intro arena _ id level proper carries
    exact ⟨proper.allocate ⟨rfl, by simpa using carries.lt_size⟩,
      fun _ _ other => other.extend (arena.allocate_extends _),
      Arena.carries_allocate_not carries⟩
  combine := by
    intro gate arena _ last lastLevel first firstLevel proper lastCarries firstCarries
    exact ⟨proper.allocate ⟨rfl, by simpa using ⟨lastCarries.lt_size, firstCarries.lt_size⟩⟩,
      fun _ _ other => other.extend (arena.allocate_extends _),
      Arena.carries_allocate_binary gate lastCarries firstCarries⟩

theorem unfolding_plants (allowed : Signal → Prop) (leaf : Signal → Level) :
    (unfolding allowed leaf).Plants () allowed leaf := by
  intro arena signal proper inside
  have grown := arena.allocate_extends (.leaf signal)
  exact ⟨⟨proper.allocate ⟨rfl, inside⟩, fun _ _ carries => carries.extend grown⟩,
    .signal signal, .signal (arena.node?_allocate _), rfl⟩

theorem Arena.Proper.leaves_carry {arena : Arena} {allowed : Signal → Prop}
    (proper : arena.Proper allowed) (signal : Nat → Signal) (count : Nat)
    (inside : ∀ index < count, allowed (signal index)) (leaf : Signal → Level) :
    (arena.leaves signal count).2.Proper allowed ∧
      List.Forall₂ ((arena.leaves signal count).2.Carries leaf) (arena.leaves signal count).1
        ((List.range count).map fun index => leaf (signal index)) := by
  obtain ⟨evolves, carry⟩ :=
    (unfolding_plants allowed leaf).leaves proper signal count inside
  exact ⟨evolves.world, carry⟩

namespace Netlist

variable {netlist : Netlist} {arena : Arena} {allowed : Signal → Prop}

def leafSimulator (netlist : Netlist) (leaf : Signal → Level) : Simulator where
  netlist
  context := ()
  state := (List.range netlist.flipflops.length).map fun index => leaf (.flipflop index)
  outputs := (List.range netlist.outputs.length).map fun index => leaf (.output index)

theorem graphCircuit_unfolding (proper : arena.Proper allowed)
    (declared : ∀ signal, netlist.Declares signal → allowed signal) (leaf : Signal → Level) :
    (unfolding allowed leaf).Circuits (netlist.graphCircuit arena) (netlist.leafSimulator leaf) :=
  ((unfolding_plants allowed leaf).graphCircuit proper declared).2

theorem graphCircuit_runs (netlist : Netlist) (arena : Arena) :
    (netlist.graphCircuit arena).Runs netlist :=
  ⟨rfl, Arena.length_leaves ..⟩

/-- Beside every circuit that a graph circuit comes to, over nodes it has, runs a simulator. -/
theorem exists_beside (proper : arena.Proper allowed)
    (declared : ∀ signal, netlist.Declares signal → allowed signal) (leaf : Signal → Level)
    {circuit : GraphCircuit} (reached : (netlist.graphCircuit arena).Leads .graph
      (fun arena ids => ∀ id ∈ ids, id < arena.size) circuit) :
    ∃ simulator, (unfolding allowed leaf).Circuits circuit simulator := by
  induction reached with
  | refl => exact ⟨_, graphCircuit_unfolding proper declared leaf⟩
  | tail _ step ih =>
      obtain ⟨ids, present, rfl⟩ := step
      obtain ⟨simulator, circuits⟩ := ih
      obtain ⟨levels, carry⟩ := circuits.world.exists_carries leaf present
      exact ⟨_, (circuits.tick carry).2.2⟩

/-- Where all expressions are well-formed, every node of a graph circuit carries one level, and a
simulator whose flip-flops have the levels of those of the graph circuit shows, after a tick over
the levels of the nodes that the graph circuit is given, the levels of its new nodes. -/
theorem graph_carries_simulation {declaration : Declaration}
    (resolved : declaration.resolve = .ok netlist)
    (polish : ∀ assignment ∈ netlist.assignments, Polish assignment.expression)
    (proper : arena.Proper fun _ => True) {circuit : GraphCircuit}
    (reached : (netlist.graphCircuit arena).Leads .graph
      (fun arena ids => ∀ id ∈ ids, id < arena.size) circuit) (leaf : Signal → Level) :
    (∀ id < circuit.context.size, ∃! level, circuit.context.Carries leaf id level) ∧
      ∀ simulator : Simulator, simulator.netlist = netlist →
        List.Forall₂ (circuit.context.Carries leaf) circuit.state simulator.state →
        ∀ ids levels, ids.length = netlist.inputs.length →
          List.Forall₂ (circuit.context.Carries leaf) ids levels →
          let drawn := GraphCircuit.tick ids circuit
          let simulated := simulator.tick levels
          drawn.result = .ok () ∧ simulated.result = .ok () ∧
            List.Forall₂ (drawn.circuit.context.Carries leaf) drawn.circuit.state
              simulated.circuit.state ∧
            List.Forall₂ (drawn.circuit.context.Carries leaf) drawn.circuit.outputs
              simulated.circuit.outputs := by
  obtain ⟨_, beside⟩ := exists_beside proper (fun _ _ => trivial) leaf reached
  refine ⟨fun id bound => beside.world.existsUnique_carries leaf bound, ?_⟩
  intro simulator simulates state ids levels width carry
  have runs := (netlist.graphCircuit_runs arena).leads reached
  have drawn : (GraphCircuit.tick ids circuit).result = .ok () :=
    (runs.tick_result .graph (Declaration.orderly_of_resolve resolved) width).trans
      ((verdictOfAll_eq_ok_iff _).mpr polish)
  obtain ⟨result, after⟩ := (unfolding (fun _ => True) leaf).tick_of_state
    (runs.same.trans simulates.symm) beside.world state carry
  exact ⟨drawn, result.symm.trans drawn, (after drawn).state, (after drawn).outputs⟩

def ringDrawn : GraphCircuit :=
  let (inputs, arena) := Arena.empty.leaves .input 3
  (GraphCircuit.tick inputs (ring.graphCircuit arena)).circuit

def ringLeaf : Signal → Level
  | .input 0 | .input 2 | .flipflop 1 => .high
  | .input _ | .flipflop 0 => .low
  | _ => .unknown

/-- In a second tick the ring reads the root of its first output on its first input, and a
flip-flop on its third. -/
theorem graph_carries_simulation_ring :
    ringDrawn.state = [12, 8, 5] ∧
      List.Forall₂ (ringDrawn.context.Carries ringLeaf) [12, 8, 5] [.high, .low, .unknown] ∧
      (GraphCircuit.tick [9, 1, 3] ringDrawn).circuit.outputs = [14, 16] ∧
      List.Forall₂ ((GraphCircuit.tick [9, 1, 3] ringDrawn).circuit.context.Carries ringLeaf)
        [14, 16] [.low, .unknown] := by
  have resolved : Declaration.ring.resolve = .ok .ring := by decide +kernel
  have proper : (Arena.empty.leaves .input 3).2.Proper fun _ => True :=
    ((Arena.proper_empty _).leaves_carry .input 3 (fun _ _ => trivial) ringLeaf).1
  have reached : (ring.graphCircuit (Arena.empty.leaves .input 3).2).Leads .graph
      (fun arena ids => ∀ id ∈ ids, id < arena.size) ringDrawn :=
    .single ⟨[0, 1, 2], by decide +kernel, rfl⟩
  obtain ⟨_, carried⟩ :=
    graph_carries_simulation resolved (by decide +kernel) proper reached ringLeaf
  have xorNode : ringDrawn.context.node? 9 = some ⟨.gate (.binary .xor), [3, 0]⟩ := by
    decide +kernel
  have orNode : ringDrawn.context.node? 8 = some ⟨.gate (.binary .or), [1, 3]⟩ := by
    decide +kernel
  have andNode : ringDrawn.context.node? 12 = some ⟨.gate (.binary .and), [4, 9]⟩ := by
    decide +kernel
  have first : ringDrawn.context.Unfolds 9
      (.binary .xor (.signal (.input 0)) (.signal (.flipflop 0))) :=
    .binary xorNode (.signal (by decide +kernel)) (.signal (by decide +kernel))
  have second : ringDrawn.context.Unfolds 8
      (.binary .or (.signal (.flipflop 0)) (.signal (.input 1))) :=
    .binary orNode (.signal (by decide +kernel)) (.signal (by decide +kernel))
  have third : ringDrawn.context.Unfolds 12 (.binary .and
      (.binary .xor (.signal (.input 0)) (.signal (.flipflop 0))) (.signal (.flipflop 1))) :=
    .binary andNode (.signal (by decide +kernel)) first
  have state : List.Forall₂ (ringDrawn.context.Carries ringLeaf) [12, 8, 5]
      [.high, .low, .unknown] :=
    .cons ⟨_, third, rfl⟩ (.cons ⟨_, second, rfl⟩
      (.cons ⟨.signal (.flipflop 2), .signal (by decide +kernel), rfl⟩ .nil))
  have inputs : List.Forall₂ (ringDrawn.context.Carries ringLeaf) [9, 1, 3]
      [.high, .low, .low] :=
    .cons ⟨_, first, rfl⟩ (.cons ⟨.signal (.input 1), .signal (by decide +kernel), rfl⟩
      (.cons ⟨.signal (.flipflop 0), .signal (by decide +kernel), rfl⟩ .nil))
  have states : ringDrawn.state = [12, 8, 5] := by decide +kernel
  have roots : (GraphCircuit.tick [9, 1, 3] ringDrawn).circuit.outputs = [14, 16] := by
    decide +kernel
  obtain ⟨_, _, _, outputs⟩ := carried ⟨ring, (), [.high, .low, .unknown], [.unknown, .unknown]⟩ rfl
    (states ▸ state) [9, 1, 3] [.high, .low, .low] rfl inputs
  rw [roots] at outputs
  exact ⟨states, state, roots, outputs⟩

end Netlist

end GateLevel
