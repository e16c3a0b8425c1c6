import GateLevel.Proofs.Orderly
import GateLevel.Proofs.Settling
import GateLevel.Simulation

/-! A tick of a resolved circuit solves the equations that its assignments write down, and they
have no other solution. -/

namespace GateLevel

variable {V : Type}

def Interpretation.value (meaning : Interpretation Unit V) (inputs state outputs : List V)
    (expression : List Token) : Except EvalError V :=
  (meaning.evaluate ⟨inputs, state, outputs.map some⟩ expression ()).1

theorem Interpretation.value_congr (meaning : Interpretation Unit V)
    {inputs state outputs otherInputs otherState otherOutputs : List V} {expression : List Token}
    (agree : ∀ signal, Token.signal signal ∈ expression →
      Scope.read ⟨inputs, state, outputs.map some⟩ signal =
        Scope.read ⟨otherInputs, otherState, otherOutputs.map some⟩ signal) :
    meaning.value inputs state outputs expression =
      meaning.value otherInputs otherState otherOutputs expression := by
  simp only [Interpretation.value, meaning.evaluate_congr agree]

namespace Scope

theorem read_output_eq_ok_iff (inputs state outputs : List V) (index : Nat) (value : V) :
    read ⟨inputs, state, outputs.map some⟩ (.output index) = .ok value ↔
      outputs[index]? = some value := by
  simp only [read, List.getElem?_map]
  cases outputs[index]? <;> simp

end Scope

namespace Netlist

/-- The outputs have the values of their expressions, all outputs being known. -/
def Solves (netlist : Netlist) (meaning : Interpretation Unit V)
    (inputs state outputs : List V) : Prop :=
  outputs.length = netlist.outputs.length ∧
    ∀ (index : Nat) (bound : index < outputs.length), ∃ expression,
      netlist.expression? (.output index) = some expression ∧
        meaning.value inputs state outputs expression = .ok outputs[index]

theorem Solves.getElem? {netlist : Netlist} (orderly : netlist.Orderly)
    {meaning : Interpretation Unit V} {inputs state outputs : List V}
    (solves : netlist.Solves meaning inputs state outputs) {assignment : Assignment}
    (member : assignment ∈ netlist.assignments) {index : Nat}
    (target : assignment.target = .output index) :
    ∃ value, outputs[index]? = some value ∧
      meaning.value inputs state outputs assignment.expression = .ok value := by
  have bound : index < outputs.length := by
    have declared := orderly.targets_declared assignment member
    rw [target] at declared
    rw [solves.1]
    exact declared
  obtain ⟨expression, driven, valued⟩ := solves.2 index bound
  have same : netlist.expression? (.output index) = some assignment.expression := by
    rw [orderly.expression?_eq_some_iff, ← target]
    exact member
  rw [same, Option.some.injEq] at driven
  exact ⟨outputs[index], by simp [bound], driven ▸ valued⟩

theorem Solves.unique {netlist : Netlist} (orderly : netlist.Orderly)
    {meaning : Interpretation Unit V} {inputs state outputs others : List V}
    (first : netlist.Solves meaning inputs state outputs)
    (second : netlist.Solves meaning inputs state others) : outputs = others := by
  have agree : ∀ signal, netlist.Declares signal →
      Scope.read ⟨inputs, state, outputs.map some⟩ signal =
        Scope.read ⟨inputs, state, others.map some⟩ signal := by
    -- Whatever an output reads has been shown to agree before the output itself.
    refine orderly.induction ?_ ?_
    · intro signal seeded
      cases seeded <;> rfl
    · intro assignment member index target known
      obtain ⟨value, present, valued⟩ := first.getElem? orderly member target
      obtain ⟨other, otherPresent, otherValued⟩ := second.getElem? orderly member target
      have same : value = other := by
        rw [meaning.value_congr fun signal mentioned =>
          known signal ((assignment.mem_operands_iff signal).mpr mentioned)] at valued
        exact Except.ok.inj (valued.symm.trans otherValued)
      rw [(Scope.read_output_eq_ok_iff _ _ _ _ _).mpr present,
        (Scope.read_output_eq_ok_iff _ _ _ _ _).mpr otherPresent, same]
  apply List.ext_getElem (first.1.trans second.1.symm)
  intro index bound otherBound
  have declared : netlist.Declares (.output index) := by
    rw [first.1] at bound
    exact bound
  have found := (Scope.read_output_eq_ok_iff inputs state outputs index outputs[index]).mpr
    (by simp [bound])
  rw [agree (.output index) declared, Scope.read_output_eq_ok_iff] at found
  simpa [otherBound] using found.symm

end Netlist

namespace Circuit

def value? (circuit : Circuit Unit V) : Target → Option V
  | .output index => circuit.outputs[index]?
  | .flipflop index => circuit.state[index]?

variable {meaning : Interpretation Unit V} {inputs : List V} {circuit : Circuit Unit V}

/-- After a successful tick every target has the value of its expression, all outputs being
known and the flip-flops being read as before the tick. -/
theorem tick_value (orderly : circuit.netlist.Orderly)
    (ticked : (circuit.tick meaning inputs).result = .ok ()) {assignment : Assignment}
    (member : assignment ∈ circuit.netlist.assignments) :
    ∃ value, meaning.value inputs circuit.state (circuit.tick meaning inputs).circuit.outputs
        assignment.expression = .ok value ∧
      (circuit.tick meaning inputs).circuit.value? assignment.target = some value := by
  obtain ⟨final, begun, outputs, ran, driven, after⟩ := tick_eq_ok ticked
  have solved := Settling.run_solves ran orderly.targets_distinct (by
    intro index _
    simp only [Settling.value?, List.getElem?_replicate]
    split <;> rfl)
  obtain ⟨context, value, evaluated, present⟩ := solved assignment member
  rw [after]
  refine ⟨value, ?_, ?_⟩
  · rw [Interpretation.value, ← driven]
    exact evaluated
  · cases target : assignment.target with
    | output index =>
        rw [target, Settling.value?, driven, List.getElem?_map] at present
        rw [value?]
        cases found : outputs[index]? <;> simp_all
    | flipflop index =>
        rw [target] at present
        exact present

theorem tick_solves (orderly : circuit.netlist.Orderly)
    (ticked : (circuit.tick meaning inputs).result = .ok ()) :
    circuit.netlist.Solves meaning inputs circuit.state
      (circuit.tick meaning inputs).circuit.outputs := by
  refine ⟨tick_outputs_length ticked, ?_⟩
  intro index bound
  rw [tick_outputs_length ticked] at bound
  obtain ⟨assignment, member, target⟩ := orderly.outputs_driven index bound
  obtain ⟨value, valued, present⟩ := tick_value orderly ticked member
  refine ⟨assignment.expression, ?_, ?_⟩
  · rw [orderly.expression?_eq_some_iff, ← target]
    exact member
  · rw [target] at present
    rw [valued, (List.getElem?_eq_some_iff.mp present).2]

end Circuit

/-- The new outputs are the only solution of the equations of the outputs over these inputs and
the flip-flops before the tick. Over the same values, every driven flip-flop takes the value of
its expression; the others keep theirs. -/
theorem Simulator.tick_unique_solution {declaration : Declaration} {netlist : Netlist}
    (resolved : declaration.resolve = .ok netlist) (simulator : Simulator)
    (simulates : simulator.netlist = netlist) (inputs : List Level)
    (ticked : (simulator.tick inputs).result = .ok ()) :
    (∀ outputs, netlist.Solves .level inputs simulator.state outputs ↔
        outputs = (simulator.tick inputs).circuit.outputs) ∧
      (∀ index expression, netlist.expression? (.flipflop index) = some expression →
        ∃ value, (simulator.tick inputs).circuit.state[index]? = some value ∧
          Interpretation.level.value inputs simulator.state
            (simulator.tick inputs).circuit.outputs expression = .ok value) ∧
      ∀ index, netlist.expression? (.flipflop index) = none →
        (simulator.tick inputs).circuit.state[index]? = simulator.state[index]? := by
  subst simulates
  have orderly := Declaration.orderly_of_resolve resolved
  have solves := Circuit.tick_solves orderly ticked
  refine ⟨?_, ?_, ?_⟩
  · intro outputs
    constructor
    · intro other
      exact other.unique orderly solves
    · rintro rfl
      exact solves
  · intro index expression driven
    rw [orderly.expression?_eq_some_iff] at driven
    obtain ⟨value, valued, present⟩ := Circuit.tick_value orderly ticked driven
    exact ⟨value, present, valued⟩
  · intro index undriven
    rw [Netlist.expression?_eq_none_iff] at undriven
    exact Circuit.tick_undriven ticked undriven

def Declaration.ring : Declaration where
  name := "Ring"
  clocked := true
  inputs := ["A", "B", "C"]
  flipflops := [0, 1, 2]
  outputs := ["X", "Y"]
  assignments := [
    ⟨.output 1, [.signal (.output 0), .signal (.input 2), .gate (.binary .and),
      .signal (.flipflop 2), .gate (.binary .or)]⟩,
    ⟨.flipflop 0, [.signal (.output 0), .signal (.flipflop 1), .gate (.binary .and)]⟩,
    ⟨.flipflop 1, [.signal (.flipflop 0), .signal (.input 1), .gate (.binary .or)]⟩,
    ⟨.output 0, [.signal (.input 0), .signal (.flipflop 0), .gate (.binary .xor)]⟩]

def Netlist.ring : Netlist := ⟨Declaration.ring.toHeader, Declaration.ring.assignments.rotate 2⟩

def Simulator.ring : Simulator := ⟨.ring, (), [.low, .high, .unknown], [.unknown, .unknown]⟩

/-- In the ring both outputs rise, and only the new outputs solve the equations. -/
theorem Simulator.tick_unique_solution_ring :
    Declaration.ring.resolve = .ok .ring ∧
      (Simulator.ring.tick [.high, .low, .high]).result = .ok () ∧
      (∀ outputs, Netlist.ring.Solves .level [.high, .low, .high] Simulator.ring.state outputs ↔
        outputs = [.high, .high]) ∧
      (Simulator.ring.tick [.high, .low, .high]).circuit.state[2]? = some .unknown := by
  have resolved : Declaration.ring.resolve = .ok .ring := by decide +kernel
  have ticked : (Simulator.ring.tick [.high, .low, .high]).result = .ok () := by decide
  have settled : (Simulator.ring.tick [.high, .low, .high]).circuit.outputs = [.high, .high] := by
    decide
  obtain ⟨unique, _, undriven⟩ :=
    Simulator.tick_unique_solution resolved Simulator.ring rfl [.high, .low, .high] ticked
  exact ⟨resolved, ticked, fun outputs => settled ▸ unique outputs,
    undriven 2 (by decide)⟩

end GateLevel
