import GateLevel.Proofs.Graph.Ending
import GateLevel.Simulation

/-! A tick fails for the expressions of its netlist and for nothing else, so that the simulator and
the analysis fail together, and a simulation fails in its first tick or never. -/

namespace GateLevel

variable {σ V : Type}

/-- The tick over inputs of the right width turns out as the expressions of the netlist say. -/
structure Tick.Foretold (netlist : Netlist) (before : Circuit σ V) (tick : Tick σ V) : Prop where
  ok_iff : tick.result = .ok () ↔
    ∀ assignment ∈ netlist.assignments, Polish assignment.expression
  first_ill_formed : ∀ front assignment back, netlist.assignments = front ++ assignment :: back →
    (∀ earlier ∈ front, Polish earlier.expression) → ¬ Polish assignment.expression →
    (Underflows assignment.expression → tick.result = .error .stackUnderflow) ∧
      (¬ Underflows assignment.expression → ∃ height, 2 ≤ height ∧
        heightAfter assignment.expression 0 = some height ∧
        tick.result = .error (.stackNotSingleton height))
  only_stack_errors : ∀ error, tick.result = .error error →
    error = .stackUnderflow ∨ ∃ height, 2 ≤ height ∧ error = .stackNotSingleton height
  unchanged : ∀ error, tick.result = .error error →
    tick.circuit.state = before.state ∧ tick.circuit.outputs = before.outputs

theorem verdictOfAll_of_front {front rest : List Assignment}
    (polish : ∀ earlier ∈ front, Polish earlier.expression) :
    verdictOfAll (front ++ rest) = verdictOfAll rest := by
  induction front with
  | nil => rfl
  | cons assignment others ih =>
      have first := (verdict_eq_ok_iff _).mpr (polish assignment (by simp))
      simp only [List.cons_append, verdictOfAll, first]
      exact ih fun earlier member => polish earlier (List.mem_cons_of_mem _ member)

theorem stack_error_of_verdictOfAll {assignments : List Assignment} {error : EvalError}
    (failed : verdictOfAll assignments = .error error) :
    error = .stackUnderflow ∨ ∃ height, 2 ≤ height ∧ error = .stackNotSingleton height := by
  induction assignments with
  | nil => simp [verdictOfAll] at failed
  | cons assignment rest ih =>
      simp only [verdictOfAll, verdict] at failed
      rcases measured : heightAfter assignment.expression 0 with _ | _ | _ | more <;>
        simp only [measured] at failed
      · exact Or.inl (Except.error.inj failed).symm
      · exact Or.inl (Except.error.inj failed).symm
      · exact ih failed
      · exact Or.inr ⟨more + 2, by omega, (Except.error.inj failed).symm⟩

theorem Circuit.Runs.foretold {netlist : Netlist} {circuit : Circuit σ V}
    (runs : circuit.Runs netlist) (orderly : netlist.Orderly)
    (nonempty : ∀ assignment ∈ netlist.assignments, assignment.expression ≠ [])
    (meaning : Interpretation σ V) {inputs : List V}
    (width : inputs.length = netlist.inputs.length) :
    (circuit.tick meaning inputs).Foretold netlist circuit := by
  have result := runs.tick_result meaning orderly width
  rw [Netlist.verdict] at result
  refine ⟨?_, ?_, ?_, fun error failed => (tick_error failed).2⟩
  · rw [result, verdictOfAll_eq_ok_iff]
  · intro front assignment back split polish ill
    rw [split, verdictOfAll_of_front polish, verdictOfAll] at result
    constructor
    · intro underflows
      rw [result, verdict_of_underflows underflows]
    · intro enough
      obtain ⟨height, least, measured, failed⟩ :=
        verdict_of_not_underflows (nonempty assignment (by simp [split])) enough ill
      exact ⟨height, least, measured, by rw [result, failed]⟩
  · intro error failed
    exact stack_error_of_verdictOfAll (result ▸ failed)

namespace Stimulus

theorem readBits_length {line : List Char} {bits : List Level} (read : readBits line = .ok bits) :
    bits.length = line.length := by
  induction line generalizing bits with
  | nil =>
      cases read
      rfl
  | cons c rest ih =>
      simp only [readBits, bind, Except.bind] at read
      split at read
      · simp at read
      · split at read
        · simp at read
        · rename_i others found
          cases read
          simp [ih found]

theorem readVector_length {width : Nat} {line : List Char} {bits : List Level}
    (read : readVector width line = .ok bits) : bits.length = width := by
  simp only [readVector] at read
  split at read
  · simp at read
  · rename_i sized
    rw [readBits_length read, not_not.mp sized]

end Stimulus

namespace Simulation

theorem run_ne_evaluation {netlist : Netlist} (orderly : netlist.Orderly)
    (polish : ∀ assignment ∈ netlist.assignments, Polish assignment.expression)
    {lines : List StimulusLine} {simulator : Simulator} (runs : simulator.Runs netlist)
    (number : Nat) (room : Option Nat) (line : Nat) (error : EvalError) :
    (run netlist.inputs.length number lines room simulator).result ≠
      .error (.evaluation line error) := by
  induction lines generalizing simulator number room with
  | nil => simp [run]
  | cons first rest ih =>
      cases first with
      | undecodable => simp [run, stop]
      | text vector =>
          simp only [run]
          split
          · simp [stop]
          · rename_i inputs read
            have ticked : (simulator.tick inputs).result = .ok () :=
              (runs.tick_result .level orderly (Stimulus.readVector_length read)).trans
                ((verdictOfAll_eq_ok_iff _).mpr polish)
            simp only [ticked]
            split
            · simp
            · exact ih (runs.tick .level inputs) _ _

theorem run_of_tick_error {width number : Nat} {vector : List Char} {inputs : List Level}
    (read : Stimulus.readVector width vector = .ok inputs) {simulator : Simulator}
    {cause : EvalError} (failed : (simulator.tick inputs).result = .error cause)
    (rest : List StimulusLine) (room : Option Nat) :
    run width number (.text vector :: rest) room simulator =
      ⟨[], (simulator.tick inputs).begun, .error (.evaluation number cause)⟩ := by
  simp only [run, read, failed]

theorem run_evaluation {netlist : Netlist} (orderly : netlist.Orderly)
    {lines : List StimulusLine} {simulator : Simulator} (runs : simulator.Runs netlist)
    {number line : Nat} {room : Option Nat} {error : EvalError}
    (failed : (run netlist.inputs.length number lines room simulator).result =
      .error (.evaluation line error)) :
    line = number ∧ (run netlist.inputs.length number lines room simulator).written = [] := by
  by_cases polish : ∀ assignment ∈ netlist.assignments, Polish assignment.expression
  · exact absurd failed (run_ne_evaluation orderly polish runs _ _ _ _)
  -- Already the first vector that can be read meets the failure.
  · rcases lines with _ | ⟨vector | _, rest⟩
    · simp [run] at failed
    · cases read : Stimulus.readVector netlist.inputs.length vector with
      | error cause => simp [run, read, stop] at failed
      | ok inputs =>
          have result := runs.tick_result .level orderly
            (Stimulus.readVector_length read)
          cases verdict : netlist.verdict with
          | ok done => exact absurd ((verdictOfAll_eq_ok_iff _).mp verdict) polish
          | error cause =>
              rw [run_of_tick_error read (result.trans verdict)] at failed ⊢
              simp only [Except.error.injEq, SimulationError.evaluation.injEq] at failed
              exact ⟨failed.1.symm, rfl⟩
    · simp [run, stop] at failed

end Simulation

namespace Netlist

variable {netlist : Netlist}

theorem analyze_eq_error_iff_ticks (orderly : netlist.Orderly) (failure : AnalysisError) :
    netlist.analyze = .error failure ↔ ∃ error, failure = .evaluation error ∧
      ∀ simulator : Simulator, netlist.simulator.Leads .level (fun _ _ => True) simulator →
        ∀ inputs, inputs.length = netlist.inputs.length →
          (simulator.tick inputs).result = .error error := by
  have drawn : netlist.graphTick.result = netlist.verdict :=
    (netlist.graphCircuit_runs _).tick_result .graph orderly (Arena.length_leaves ..)
  rw [analyze_eq_error_iff, drawn]
  refine exists_congr fun error => and_congr_right fun _ => ?_
  constructor
  · intro verdict simulator reached inputs width
    exact ((netlist.simulator_runs.leads reached).tick_result .level orderly width).trans verdict
  · intro failed
    have width : (List.replicate netlist.inputs.length Level.unknown).length =
        netlist.inputs.length := List.length_replicate ..
    have first := netlist.simulator_runs.tick_result .level orderly width
    exact first.symm.trans (failed netlist.simulator .refl _ width)

/-- Every tick over inputs of the right width, of a simulator and of a graph circuit alike, turns
out as the expressions say. The analysis fails exactly if every such tick of a simulator fails, and
with the same error. A simulation that fails in a tick does so at its first line and has written
nothing. -/
theorem failure_foretold {declaration : Declaration}
    (resolved : declaration.resolve = .ok netlist) :
    (∀ simulator : Simulator, netlist.simulator.Leads .level (fun _ _ => True) simulator →
        ∀ inputs, inputs.length = netlist.inputs.length →
          (simulator.tick inputs).Foretold netlist simulator) ∧
      (∀ arena (circuit : GraphCircuit),
        (netlist.graphCircuit arena).Leads .graph (fun _ _ => True) circuit →
          ∀ ids, ids.length = netlist.inputs.length →
            (GraphCircuit.tick ids circuit).Foretold netlist circuit) ∧
      (∀ failure, netlist.analyze = .error failure ↔ ∃ error, failure = .evaluation error ∧
        ∀ simulator : Simulator, netlist.simulator.Leads .level (fun _ _ => True) simulator →
          ∀ inputs, inputs.length = netlist.inputs.length →
            (simulator.tick inputs).result = .error error) ∧
      ∀ lines room line error,
        (netlist.simulate lines room).result = .error (.evaluation line error) →
          line = 1 ∧ (netlist.simulate lines room).written = [] := by
  have orderly := Declaration.orderly_of_resolve resolved
  have nonempty : ∀ assignment ∈ netlist.assignments, assignment.expression ≠ [] := by
    obtain ⟨_, perm, _⟩ := Declaration.resolve_eq_ok resolved
    intro assignment member
    exact (Declaration.wellFormed_of_resolve resolved).expressions_nonempty assignment
      (perm.mem_iff.mp member)
  refine ⟨?_, ?_, analyze_eq_error_iff_ticks orderly, ?_⟩
  · intro simulator reached inputs width
    exact (netlist.simulator_runs.leads reached).foretold orderly nonempty .level width
  · intro arena circuit reached ids width
    exact ((netlist.graphCircuit_runs arena).leads reached).foretold orderly nonempty .graph width
  · intro lines room line error failed
    exact Simulation.run_evaluation orderly netlist.simulator_runs failed

def ragged : Netlist where
  name := "Ragged"
  clocked := true
  inputs := ["A", "B"]
  flipflops := [7]
  outputs := ["X", "Y"]
  assignments := [
    ⟨.flipflop 0, [.signal (.input 1), .gate .not]⟩,
    ⟨.output 0, [.signal (.input 0), .signal (.flipflop 0)]⟩,
    ⟨.output 1, [.signal (.output 0), .gate (.binary .and)]⟩]

theorem ragged_fails {before : Circuit σ V} {tick : Tick σ V}
    (foretold : tick.Foretold ragged before) : tick.result = .error (.stackNotSingleton 2) := by
  obtain ⟨height, _, measured, failed⟩ :=
    (foretold.first_ill_formed [_] _ [_] rfl (by decide +kernel) (by decide +kernel)).2
      (by decide +kernel)
  obtain rfl : 2 = height := Option.some.inj measured
  exact failed

theorem failure_foretold_ragged :
    (ragged.simulator.tick [.high, .low]).result = .error (.stackNotSingleton 2) ∧
      (ragged.simulator.tick [.high, .low]).circuit.state = [.unknown] ∧
      (GraphCircuit.tick [0, 1] (ragged.graphCircuit .empty)).result =
        .error (.stackNotSingleton 2) ∧
      ragged.analyze = .error (.evaluation (.stackNotSingleton 2)) ∧
      (ragged.simulate [.text ['1', '0'], .undecodable] none).written = [] := by
  have resolved : Declaration.resolve ⟨ragged.toHeader, ragged.assignments.reverse⟩ =
      .ok ragged := by decide +kernel
  obtain ⟨simulated, drawn, analyzed, reported⟩ := failure_foretold resolved
  have foretold := simulated ragged.simulator .refl [.high, .low] rfl
  have stopped : (ragged.simulate [.text ['1', '0'], .undecodable] none).result =
      .error (.evaluation 1 (.stackNotSingleton 2)) := by decide +kernel
  refine ⟨ragged_fails foretold, (foretold.unchanged _ (ragged_fails foretold)).1,
    ragged_fails (drawn _ _ .refl [0, 1] rfl), (analyzed _).mpr ⟨_, rfl, ?_⟩,
    (reported _ _ _ _ stopped).2⟩
  intro simulator reached inputs width
  exact ragged_fails (simulated simulator reached inputs width)

end Netlist

end GateLevel
