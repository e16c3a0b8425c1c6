import GateLevel.Graph.Analysis
import GateLevel.Proofs.Correspondence

/-! Leaves of a graph beside the values that stand for their signals: where leaves can be added to a
correspondence, the circuit that builds a graph runs beside one that starts from these values. -/

namespace GateLevel

variable {σ τ V W : Type}

namespace Netlist

def leafCircuit (netlist : Netlist) (context : τ) (leaf : Signal → W) : Circuit τ W where
  netlist
  context
  state := (List.range netlist.flipflops.length).map fun index => leaf (.flipflop index)
  outputs := (List.range netlist.outputs.length).map fun index => leaf (.output index)

def leafInputs (netlist : Netlist) (leaf : Signal → W) : List W :=
  (List.range netlist.inputs.length).map fun index => leaf (.input index)

end Netlist

namespace Correspondence

def flip {first : Interpretation σ V} {second : Interpretation τ W}
    (correspondence : Correspondence first second) : Correspondence second first where
  World context other := correspondence.World other context
  Related context other value partner := correspondence.Related other context partner value
  invert world related :=
    have ⟨later, keeps, result⟩ := correspondence.invert world related
    ⟨later, fun a b => keeps b a, result⟩
  combine gate _ _ _ _ _ _ world last front :=
    have ⟨later, keeps, result⟩ := correspondence.combine gate world last front
    ⟨later, fun a b => keeps b a, result⟩

variable {second : Interpretation τ W} (correspondence : Correspondence .graph second)

def Plants (other : τ) (allowed : Signal → Prop) (leaf : Signal → W) : Prop :=
  ∀ arena signal, correspondence.World arena other → allowed signal →
    correspondence.Evolves arena other (arena.allocate (.leaf signal)).2 other ∧
      correspondence.Related (arena.allocate (.leaf signal)).2 other
        (arena.allocate (.leaf signal)).1 (leaf signal)

namespace Plants

variable {correspondence} {other : τ} {allowed : Signal → Prop} {leaf : Signal → W} {arena : Arena}
  (plants : correspondence.Plants other allowed leaf) (world : correspondence.World arena other)

include plants world

theorem allocateAll (signals : List Signal) (inside : ∀ signal ∈ signals, allowed signal) :
    correspondence.Evolves arena other (arena.allocateAll (signals.map .leaf)).2 other ∧
      List.Forall₂ (correspondence.Related (arena.allocateAll (signals.map .leaf)).2 other)
        (arena.allocateAll (signals.map .leaf)).1 (signals.map leaf) := by
  induction signals generalizing arena with
  | nil => exact ⟨.refl world, .nil⟩
  | cons signal rest ih =>
      obtain ⟨first, stands⟩ := plants arena signal world (inside signal (by simp))
      obtain ⟨later, others⟩ :=
        ih first.world fun other member => inside other (List.mem_cons_of_mem _ member)
      exact ⟨first.trans later, .cons (later.keeps _ _ stands) others⟩

theorem leaves (signal : Nat → Signal) (count : Nat)
    (inside : ∀ index < count, allowed (signal index)) :
    correspondence.Evolves arena other (arena.leaves signal count).2 other ∧
      List.Forall₂ (correspondence.Related (arena.leaves signal count).2 other)
        (arena.leaves signal count).1
        ((List.range count).map fun index => leaf (signal index)) := by
  have planted := plants.allocateAll world ((List.range count).map signal) (by simpa using inside)
  rw [List.map_map, List.map_map] at planted
  exact planted

variable {netlist : Netlist} (declared : ∀ signal, netlist.Declares signal → allowed signal)

include declared

theorem graphCircuit :
    correspondence.Evolves arena other (netlist.graphCircuit arena).context other ∧
      correspondence.Circuits (netlist.graphCircuit arena) (netlist.leafCircuit other leaf) := by
  obtain ⟨first, state⟩ := plants.leaves world .flipflop netlist.flipflops.length
    fun index bound => declared (.flipflop index) bound
  obtain ⟨later, outputs⟩ := plants.leaves first.world .output netlist.outputs.length
    fun index bound => declared (.output index) bound
  exact ⟨first.trans later, rfl, later.world, state.imp later.keeps, outputs⟩

omit world

/-- The tick that builds the graph runs beside one over the values of the signals. -/
theorem graphTick (begins : correspondence.World .empty other) :
    netlist.graphTick.result =
        ((netlist.leafCircuit other leaf).tick second (netlist.leafInputs leaf)).result ∧
      correspondence.Circuits netlist.graphTick.circuit
        ((netlist.leafCircuit other leaf).tick second (netlist.leafInputs leaf)).circuit := by
  obtain ⟨first, inputs⟩ := plants.leaves begins .input netlist.inputs.length
    fun index bound => declared (.input index) bound
  obtain ⟨later, circuits⟩ := plants.graphCircuit first.world declared
  obtain ⟨result, _, after⟩ := circuits.tick (inputs.imp later.keeps)
  exact ⟨result, after⟩

end Plants

end Correspondence

end GateLevel
