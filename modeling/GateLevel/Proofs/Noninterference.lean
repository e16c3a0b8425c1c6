import GateLevel.Proofs.Graph.Cones

/-! Inputs outside the cone of an output never show in that output, however long a simulator
runs. -/

namespace GateLevel

namespace Netlist

def Closed (netlist : Netlist) (seen : Signal → Prop) : Prop :=
  ∀ reader read, seen reader → netlist.Reads reader read → seen read

theorem closed_reflTransGen (netlist : Netlist) (reader : Signal) :
    netlist.Closed (Relation.ReflTransGen netlist.Reads reader) :=
  fun _ _ path reads => path.tail reads

end Netlist

namespace Circuit

variable {V : Type} {meaning : Interpretation Unit V}

structure Agree (seen : Signal → Prop) (circuit partner : Circuit Unit V) : Prop where
  netlist : circuit.netlist = partner.netlist
  values : ∀ target, circuit.netlist.Declares target.signal → seen target.signal →
    circuit.value? target = partner.value? target

namespace Agree

variable {seen : Signal → Prop} {circuit partner : Circuit Unit V} {inputs others : List V}

theorem driven (agree : Agree seen circuit partner) (orderly : circuit.netlist.Orderly)
    (ticked : (circuit.tick meaning inputs).result = .ok ())
    (partnerTicked : (partner.tick meaning others).result = .ok ()) {assignment : Assignment}
    (member : assignment ∈ circuit.netlist.assignments)
    (reads : ∀ signal ∈ assignment.operands,
      Scope.read ⟨inputs, circuit.state,
          (circuit.tick meaning inputs).circuit.outputs.map some⟩ signal =
        Scope.read ⟨others, partner.state,
          (partner.tick meaning others).circuit.outputs.map some⟩ signal) :
    (circuit.tick meaning inputs).circuit.value? assignment.target =
      (partner.tick meaning others).circuit.value? assignment.target := by
  obtain ⟨value, valued, present⟩ := tick_value orderly ticked member
  obtain ⟨other, otherValued, otherPresent⟩ :=
    tick_value (agree.netlist ▸ orderly) partnerTicked (agree.netlist ▸ member)
  rw [meaning.value_congr fun signal mentioned =>
    reads signal ((assignment.mem_operands_iff signal).mpr mentioned), otherValued] at valued
  rw [present, otherPresent, Except.ok.inj valued]

theorem reads (agree : Agree seen circuit partner) (orderly : circuit.netlist.Orderly)
    (closed : circuit.netlist.Closed seen)
    (inputsAgree : ∀ index, seen (.input index) → inputs[index]? = others[index]?)
    (ticked : (circuit.tick meaning inputs).result = .ok ())
    (partnerTicked : (partner.tick meaning others).result = .ok ()) :
    ∀ signal, circuit.netlist.Declares signal → seen signal →
      Scope.read ⟨inputs, circuit.state,
          (circuit.tick meaning inputs).circuit.outputs.map some⟩ signal =
        Scope.read ⟨others, partner.state,
          (partner.tick meaning others).circuit.outputs.map some⟩ signal := by
  -- Along the evaluation order; what lies outside the set is never read inside it.
  refine orderly.induction ?_ ?_
  · intro signal seeded inside
    cases seeded with
    | input => simp only [Scope.read, inputsAgree _ inside]
    | flipflop bound =>
        have same : circuit.state[_]? = partner.state[_]? := agree.values (.flipflop _) bound inside
        simp only [Scope.read, same]
  · intro assignment member index target known inside
    have same := agree.driven orderly ticked partnerTicked member fun signal mentioned =>
      known signal mentioned
        (closed _ _ inside ⟨assignment, member, by rw [target]; rfl, mentioned⟩)
    simp only [target, value?] at same
    simp only [Scope.read, List.getElem?_map, same]

/-- One tick carries agreement on a closed set from the inputs and the state to the outputs and
the next state. -/
theorem tick (agree : Agree seen circuit partner) (orderly : circuit.netlist.Orderly)
    (closed : circuit.netlist.Closed seen)
    (inputsAgree : ∀ index, seen (.input index) → inputs[index]? = others[index]?)
    (ticked : (circuit.tick meaning inputs).result = .ok ())
    (partnerTicked : (partner.tick meaning others).result = .ok ()) :
    Agree seen (circuit.tick meaning inputs).circuit (partner.tick meaning others).circuit := by
  have reads := agree.reads orderly closed inputsAgree ticked partnerTicked
  refine ⟨?_, ?_⟩
  · rw [tick_netlist ticked, tick_netlist partnerTicked, agree.netlist]
  · intro target declared inside
    rw [tick_netlist ticked] at declared
    by_cases driven : ∃ assignment ∈ circuit.netlist.assignments, assignment.target = target
    · obtain ⟨assignment, member, rfl⟩ := driven
      exact agree.driven orderly ticked partnerTicked member fun signal mentioned =>
        reads signal (orderly.operands_declared assignment member signal mentioned)
          (closed _ _ inside ⟨assignment, member, rfl, mentioned⟩)
    · cases target with
      | output index => exact absurd (orderly.outputs_driven index declared) driven
      | flipflop index =>
          have free : ∀ assignment ∈ circuit.netlist.assignments,
              assignment.target ≠ .flipflop index := by simpa using driven
          rw [value?, value?, tick_undriven ticked free,
            tick_undriven partnerTicked (agree.netlist ▸ free)]
          exact agree.values (.flipflop index) declared inside

end Agree

end Circuit

namespace Simulator

def advance (simulator : Simulator) (vectors : List (List Level)) : Simulator :=
  vectors.foldl (fun simulator inputs => (simulator.tick inputs).circuit) simulator

structure Sized (netlist : Netlist) (simulator : Simulator) : Prop where
  runs : simulator.netlist = netlist
  state : simulator.state.length = netlist.flipflops.length
  outputs : simulator.outputs.length = netlist.outputs.length

variable {netlist : Netlist} {analysis : Analysis} {simulator : Simulator}

theorem sized_simulator (netlist : Netlist) : Sized netlist netlist.simulator := by
  refine ⟨rfl, ?_, ?_⟩ <;> simp [Netlist.simulator]

namespace Sized

/-- What the graph could be built for never fails on vectors of the right width. -/
theorem tick_ok (sized : Sized netlist simulator) (analyzed : netlist.analyze = .ok analysis)
    {inputs : List Level} (width : inputs.length = netlist.inputs.length) :
    (simulator.tick inputs).result = .ok () := by
  rw [← (Netlist.analyze_eq_ok analyzed).1, netlist.graphTick_standing.1]
  refine Circuit.tick_result_congr _ _ sized.runs ?_ ?_ ?_
  · simpa [Netlist.supportCircuit] using sized.state
  · simpa [Netlist.supportCircuit] using sized.outputs
  · simpa [Netlist.supportInputs] using width

theorem tick (sized : Sized netlist simulator) {inputs : List Level}
    (ticked : (simulator.tick inputs).result = .ok ()) :
    Sized netlist (simulator.tick inputs).circuit := by
  refine ⟨(Circuit.tick_netlist ticked).trans sized.runs,
    (Circuit.tick_state_length ticked).trans sized.state, ?_⟩
  rw [← sized.runs]
  exact Circuit.tick_outputs_length ticked

theorem advance (sized : Sized netlist simulator) (analyzed : netlist.analyze = .ok analysis)
    {vectors : List (List Level)}
    (width : ∀ vector ∈ vectors, vector.length = netlist.inputs.length) :
    Sized netlist (simulator.advance vectors) := by
  induction vectors generalizing simulator with
  | nil => exact sized
  | cons vector rest ih =>
      have ticked := sized.tick_ok analyzed (width vector (List.mem_cons_self ..))
      exact ih (sized.tick ticked) fun other member => width other (List.mem_cons_of_mem _ member)

end Sized

theorem advance_agree {seen : Signal → Prop} (orderly : netlist.Orderly)
    (closed : netlist.Closed seen) (analyzed : netlist.analyze = .ok analysis)
    {first second : List (List Level)}
    (agree : List.Forall₂ (fun vector other => ∀ index, seen (.input index) →
      vector[index]? = other[index]?) first second)
    (width : ∀ vector ∈ first, vector.length = netlist.inputs.length)
    (partnerWidth : ∀ vector ∈ second, vector.length = netlist.inputs.length)
    {partner : Simulator} (sized : Sized netlist simulator) (partnerSized : Sized netlist partner)
    (alike : Circuit.Agree seen simulator partner) :
    Circuit.Agree seen (simulator.advance first) (partner.advance second) := by
  induction agree generalizing simulator partner with
  | nil => exact alike
  | @cons vector other rest others inputsAgree _ ih =>
      have ticked := sized.tick_ok analyzed (width vector (List.mem_cons_self ..))
      have partnerTicked := partnerSized.tick_ok analyzed
        (partnerWidth other (List.mem_cons_self ..))
      refine ih (fun later member => width later (List.mem_cons_of_mem _ member))
        (fun later member => partnerWidth later (List.mem_cons_of_mem _ member))
        (sized.tick ticked) (partnerSized.tick partnerTicked) ?_
      exact alike.tick (sized.runs ▸ orderly) (sized.runs ▸ closed) inputsAgree ticked
        partnerTicked

end Simulator

/-- Two new simulators that are given, at every tick, the same levels on the inputs in the cone
of an output show the same level on that output after every tick. -/
theorem Netlist.cone_noninterference {declaration : Declaration} {netlist : Netlist}
    {analysis : Analysis} (resolved : declaration.resolve = .ok netlist)
    (analyzed : netlist.analyze = .ok analysis) {output : Nat}
    (bound : output < netlist.outputs.length) {first second : List (List Level)}
    (width : ∀ vector ∈ first, vector.length = netlist.inputs.length)
    (partnerWidth : ∀ vector ∈ second, vector.length = netlist.inputs.length)
    (agree : List.Forall₂ (fun vector other => ∀ input ∈ analysis.cone (.output output),
      vector[input]? = other[input]?) first second) (ticks : Nat) :
    ∃ level, (netlist.simulator.advance (first.take ticks)).outputs[output]? = some level ∧
      (netlist.simulator.advance (second.take ticks)).outputs[output]? = some level := by
  have orderly := Declaration.orderly_of_resolve resolved
  have widthTake : ∀ vector ∈ first.take ticks, vector.length = netlist.inputs.length :=
    fun vector member => width vector (List.mem_of_mem_take member)
  have partnerTake : ∀ vector ∈ second.take ticks, vector.length = netlist.inputs.length :=
    fun vector member => partnerWidth vector (List.mem_of_mem_take member)
  have sized := Simulator.sized_simulator netlist
  have observed : netlist.Observed (.output output) := bound
  have inputsAgree := (List.forall₂_take ticks agree).imp fun vector other same index path =>
    same index ((mem_cone_iff_of_analyze orderly analyzed observed index).mpr
      (dependsOn_of_ne path (by simp [Target.signal])))
  have alike := Simulator.advance_agree orderly (netlist.closed_reflTransGen (.output output))
    analyzed inputsAgree widthTake partnerTake sized sized ⟨rfl, fun _ _ _ => rfl⟩
  have reached := sized.advance analyzed widthTake
  have declared : (netlist.simulator.advance (first.take ticks)).netlist.Declares
      (.output output) := by
    rw [reached.runs]
    exact bound
  have place : output < (netlist.simulator.advance (first.take ticks)).outputs.length := by
    rw [reached.outputs]
    exact bound
  have same : _ = (netlist.simulator.advance (second.take ticks)).outputs[output]? :=
    alike.values (.output output) declared .refl
  exact ⟨_, List.getElem?_eq_getElem place, same ▸ List.getElem?_eq_getElem place⟩

/-- The third input of the ring is outside the cone of the first output. -/
theorem Netlist.cone_noninterference_ring :
    ∃ level,
      (Netlist.ring.simulator.advance ([[.high, .low, .low], [.low, .high, .unknown]].take
        2)).outputs[0]? = some level ∧
      (Netlist.ring.simulator.advance ([[.high, .low, .high], [.low, .high, .low]].take
        2)).outputs[0]? = some level := by
  have resolved : Declaration.ring.resolve = .ok .ring := by decide +kernel
  obtain ⟨analysis, analyzed, cone, _⟩ := exists_analyze_ring
  have agree : List.Forall₂ (fun vector other => ∀ input ∈ analysis.cone (.output 0),
      vector[input]? = other[input]?)
      [[Level.high, .low, .low], [.low, .high, .unknown]]
      [[.high, .low, .high], [.low, .high, .low]] := by
    simp only [Membership.mem, cone]
    exact .cons (by decide) (.cons (by decide) .nil)
  exact cone_noninterference resolved analyzed (by decide) (by decide) (by decide) agree 2

end GateLevel
