import GateLevel.Proofs.Graph.Grafting
import GateLevel.Proofs.Equations
import GateLevel.Proofs.Stream

/-! Where every input and every flip-flop is low or high, a tick is what Boolean algebra makes of
the equations. -/

namespace GateLevel

def BinaryGate.bit : BinaryGate → Bool → Bool → Bool
  | and, first, last => first && last
  | or, first, last => first || last
  | xor, first, last => first ^^ last
  | nand, first, last => !(first && last)
  | nor, first, last => !(first || last)
  | xnor, first, last => !(first ^^ last)

def Formula.bit (leaf : Signal → Bool) : Formula → Bool
  | signal source => leaf source
  | not operand => !operand.bit leaf
  | binary gate first last => gate.bit (first.bit leaf) (last.bit leaf)

def Interpretation.bit : Interpretation Unit Bool where
  invert operand _ := (!operand, ())
  combine gate last first _ := (gate.bit first last, ())

theorem Level.not_ofBool (bit : Bool) : (ofBool bit).not = ofBool !bit := by
  cases bit <;> rfl

theorem Level.ofBool_injective : Function.Injective ofBool := by
  rintro (_ | _) (_ | _) same <;> first | rfl | cases same

theorem BinaryGate.apply_ofBool (gate : BinaryGate) (first last : Bool) :
    gate.apply (.ofBool first) (.ofBool last) = .ofBool (gate.bit first last) := by
  cases gate <;> cases first <;> cases last <;> rfl

def definite : Correspondence .bit .level where
  World _ _ := True
  Related _ _ bit level := .ofBool bit = level
  invert := by
    rintro _ _ operand _ _ rfl
    exact ⟨trivial, fun _ _ same => same, (Level.not_ofBool operand).symm⟩
  combine := by
    rintro gate _ _ last _ first _ _ rfl rfl
    exact ⟨trivial, fun _ _ same => same, (gate.apply_ofBool first last).symm⟩

def truth (leaf : Signal → Bool) : Correspondence .formula .bit where
  World _ _ := True
  Related _ _ formula bit := formula.bit leaf = bit
  invert := by
    rintro _ _ operand _ _ rfl
    exact ⟨trivial, fun _ _ same => same, rfl⟩
  combine := by
    rintro gate _ _ last _ first _ _ rfl rfl
    exact ⟨trivial, fun _ _ same => same, rfl⟩

theorem Interpretation.evaluate_bit_tokens {scope : Scope Bool} {formula : Formula}
    {leaf : Signal → Bool}
    (held : ∀ signal, Token.signal signal ∈ formula.tokens → scope.Holds signal (leaf signal)) :
    (bit.evaluate scope formula.tokens ()).1 = .ok (formula.bit leaf) := by
  obtain ⟨value, _, evaluated, related⟩ :=
    evaluate_tokens (truth leaf) .signal formula trivial fun signal mentioned =>
      ⟨leaf signal, held signal mentioned, rfl⟩
  rw [evaluated, ← related, formula.graft_signal]

theorem definite_iff {bits : List Bool} {levels : List Level} :
    List.Forall₂ (definite.Related () ()) bits levels ↔ levels = bits.map .ofBool := by
  have mapped : List.Forall₂ Eq (bits.map Level.ofBool) levels ↔
      List.Forall₂ (fun bit level => Level.ofBool bit = level) bits levels :=
    List.forall₂_map_left_iff
  rw [List.forall₂_eq_eq_eq] at mapped
  exact mapped.symm.trans eq_comm

def bitOf (inputs state outputs : List Bool) : Signal → Bool
  | .input index => inputs.getD index false
  | .flipflop index => state.getD index false
  | .output index => outputs.getD index false

namespace Netlist

/-- The bits solve the equations: every output has the bit of its formula over these inputs, the
flip-flops before the tick and the outputs themselves, every driven flip-flop takes the bit of its
formula over the same, and the other flip-flops keep their bits. -/
structure Computes (netlist : Netlist) (inputs state outputs next : List Bool) : Prop where
  outputs_length : outputs.length = netlist.outputs.length
  next_length : next.length = netlist.flipflops.length
  output : ∀ index formula, netlist.expression? (.output index) = some (Formula.tokens formula) →
    outputs[index]? = some (formula.bit (bitOf inputs state outputs))
  driven : ∀ index formula, netlist.expression? (.flipflop index) = some (Formula.tokens formula) →
    next[index]? = some (formula.bit (bitOf inputs state outputs))
  undriven : ∀ index, netlist.expression? (.flipflop index) = none → next[index]? = state[index]?

variable {netlist : Netlist} {inputs state outputs next : List Bool}

theorem holds_bitOf (inputsLength : inputs.length = netlist.inputs.length)
    (stateLength : state.length = netlist.flipflops.length)
    (outputsLength : outputs.length = netlist.outputs.length) {signal : Signal}
    (declared : netlist.Declares signal) :
    Scope.Holds ⟨inputs, state, outputs.map some⟩ signal (bitOf inputs state outputs signal) := by
  cases signal with
  | input index =>
      have bound : index < inputs.length := by rwa [inputsLength]
      simp [Scope.Holds, bitOf, bound]
  | flipflop index =>
      have bound : index < state.length := by rwa [stateLength]
      simp [Scope.Holds, bitOf, bound]
  | output index =>
      have bound : index < outputs.length := by rwa [outputsLength]
      simp [Scope.Holds, bitOf, bound]

section

variable (orderly : netlist.Orderly) (inputsLength : inputs.length = netlist.inputs.length)
  (stateLength : state.length = netlist.flipflops.length)
include orderly inputsLength stateLength

theorem value_tokens (outputsLength : outputs.length = netlist.outputs.length) {target : Target}
    {formula : Formula} (driven : netlist.expression? target = some formula.tokens) :
    Interpretation.bit.value inputs state outputs formula.tokens =
      .ok (formula.bit (bitOf inputs state outputs)) := by
  rw [orderly.expression?_eq_some_iff] at driven
  refine Interpretation.evaluate_bit_tokens fun signal mentioned => ?_
  refine holds_bitOf inputsLength stateLength outputsLength ?_
  have operand := (Assignment.mem_operands_iff ⟨target, formula.tokens⟩ signal).mpr mentioned
  exact orderly.operands_declared _ driven signal operand

variable (polish : ∀ assignment ∈ netlist.assignments, Polish assignment.expression)
include polish

omit inputsLength stateLength in
theorem exists_formula {target : Target} (driven : netlist.expression? target ≠ none) :
    ∃ formula : Formula, netlist.expression? target = some formula.tokens := by
  obtain ⟨expression, found⟩ := Option.ne_none_iff_exists'.mp driven
  obtain ⟨formula, rfl⟩ := polish _ ((orderly.expression?_eq_some_iff target expression).mp found)
  exact ⟨formula, found⟩

theorem Computes.solves (computes : netlist.Computes inputs state outputs next) :
    netlist.Solves .bit inputs state outputs := by
  refine ⟨computes.outputs_length, fun index bound => ?_⟩
  rw [computes.outputs_length] at bound
  obtain ⟨assignment, member, target⟩ := orderly.outputs_driven index bound
  have assigned : netlist.expression? (.output index) ≠ none := by
    rw [Ne, expression?_eq_none_iff]
    exact fun undriven => undriven assignment member target
  obtain ⟨formula, driven⟩ := exists_formula orderly polish assigned
  have valued := value_tokens orderly inputsLength stateLength computes.outputs_length driven
  obtain ⟨_, found⟩ := List.getElem?_eq_some_iff.mp (computes.output index formula driven)
  exact ⟨formula.tokens, driven, by rw [valued, found]⟩

theorem Computes.unique {others later : List Bool}
    (first : netlist.Computes inputs state outputs next)
    (second : netlist.Computes inputs state others later) : outputs = others ∧ next = later := by
  obtain rfl : outputs = others :=
    (first.solves orderly inputsLength stateLength polish).unique orderly
      (second.solves orderly inputsLength stateLength polish)
  refine ⟨rfl, List.ext_getElem? fun index => ?_⟩
  by_cases undriven : netlist.expression? (.flipflop index) = none
  · rw [first.undriven index undriven, second.undriven index undriven]
  · obtain ⟨formula, driven⟩ := exists_formula orderly polish undriven
    rw [first.driven index formula driven, second.driven index formula driven]

end

def bitCircuit (netlist : Netlist) (state : List Bool) : Circuit Unit Bool :=
  ⟨netlist, (), state, []⟩

theorem computes_tick (orderly : netlist.Orderly)
    (stateLength : state.length = netlist.flipflops.length)
    (inputsLength : inputs.length = netlist.inputs.length)
    (ticked : ((netlist.bitCircuit state).tick .bit inputs).result = .ok ()) :
    netlist.Computes inputs state ((netlist.bitCircuit state).tick .bit inputs).circuit.outputs
      ((netlist.bitCircuit state).tick .bit inputs).circuit.state := by
  have outputsLength := Circuit.tick_outputs_length ticked
  have shown : ∀ target formula, netlist.expression? target = some (Formula.tokens formula) →
      ((netlist.bitCircuit state).tick .bit inputs).circuit.value? target =
        some (formula.bit (bitOf inputs state
          ((netlist.bitCircuit state).tick .bit inputs).circuit.outputs)) := by
    intro target formula driven
    obtain ⟨bit, valued, present⟩ := Circuit.tick_value orderly ticked
      ((orderly.expression?_eq_some_iff target _).mp driven)
    have same := value_tokens orderly inputsLength stateLength outputsLength driven
    rw [← Except.ok.inj (valued.symm.trans same)]
    exact present
  refine ⟨outputsLength, (Circuit.tick_state_length ticked).trans stateLength, ?_, ?_, ?_⟩
  · exact fun index => shown (.output index)
  · exact fun index => shown (.flipflop index)
  · intro index undriven
    rw [expression?_eq_none_iff] at undriven
    exact Circuit.tick_undriven ticked undriven

end Netlist

namespace Simulator

variable {netlist : Netlist} {simulator : Simulator} {inputs state : List Bool}

theorem tick_bits (orderly : netlist.Orderly)
    (polish : ∀ assignment ∈ netlist.assignments, Polish assignment.expression)
    (runs : simulator.Runs netlist) (known : simulator.state = state.map .ofBool)
    (inputsLength : inputs.length = netlist.inputs.length) :
    (simulator.tick (inputs.map .ofBool)).result = .ok () ∧
      ∃ outputs next, netlist.Computes inputs state outputs next ∧
        (simulator.tick (inputs.map .ofBool)).circuit.outputs = outputs.map .ofBool ∧
        (simulator.tick (inputs.map .ofBool)).circuit.state = next.map .ofBool := by
  have stateLength : state.length = netlist.flipflops.length := by
    rw [← runs.state, known, List.length_map]
  have bitRuns : (netlist.bitCircuit state).Runs netlist := ⟨rfl, stateLength⟩
  have ticked := (bitRuns.tick_eq_ok_iff .bit orderly inputs).mpr ⟨inputsLength, polish⟩
  -- The simulator goes along with the circuit over bits, whose tick solves the equations.
  have sameNetlist : (netlist.bitCircuit state).netlist = simulator.netlist := runs.same.symm
  obtain ⟨same, after⟩ := definite.tick_of_state sameNetlist trivial (definite_iff.mpr known)
    (definite_iff.mpr (rfl : inputs.map Level.ofBool = _))
  have circuits := after ticked
  have computes := Netlist.computes_tick orderly stateLength inputsLength ticked
  exact ⟨same.symm.trans ticked, _, _, computes, definite_iff.mp circuits.outputs,
    definite_iff.mp circuits.state⟩

end Simulator

namespace Stimulus

def bits (line : List Char) : List Bool := (trimReturns line).map (· = '1')

theorem levels_eq_map_bits (line : List Char) : levels line = (bits line).map .ofBool := by
  rw [levels, bits, List.map_map]
  refine List.map_congr_left fun c _ => ?_
  by_cases one : c = '1'
  · simp [level, one, Level.ofBool]
  · simp [level, one, Level.ofBool]

theorem IsVector.bits_length {width : Nat} {line : List Char} (vector : IsVector width line) :
    (Stimulus.bits line).length = width := by
  rw [Stimulus.bits, List.length_map, vector.sized]

theorem isBit_of_readBits {line : List Char} {levels : List Level}
    (read : readBits line = .ok levels) : ∀ c ∈ line, IsBit c := by
  induction line generalizing levels with
  | nil => exact List.forall_mem_nil _
  | cons first rest ih =>
      simp only [readBits, bind, Except.bind] at read
      split at read
      · cases read
      · rename_i level found
        split at read
        · cases read
        · rename_i later
          have bit : IsBit first := by
            by_contra bad
            rw [readBit_of_not_bit bad] at found
            cases found
          exact List.forall_mem_cons.mpr ⟨bit, ih later⟩

theorem isVector_of_readVector {width : Nat} {line : List Char} {inputs : List Level}
    (read : readVector width line = .ok inputs) : IsVector width line := by
  by_cases sized : (trimReturns line).length = width
  · refine ⟨sized, fun c member => ?_⟩
    rw [readVector, if_neg (not_not.mpr sized)] at read
    exact isBit_of_readBits read c member
  · rw [readVector, if_pos sized] at read
    cases read

end Stimulus

def bitLine (row : List Bool) : List Char := row.map (fun bit => if bit then '1' else '0') ++ ['\n']

theorem outputLine_map_ofBool (row : List Bool) :
    Simulation.outputLine (row.map .ofBool) = bitLine row := by
  rw [Simulation.outputLine, bitLine, List.map_map]
  congr 2
  funext bit
  cases bit <;> rfl

theorem unknown_not_mem_bitLine (row : List Bool) : 'x' ∉ bitLine row := by
  simp [bitLine]

section

variable {netlist : Netlist} {simulator : Simulator} (orderly : netlist.Orderly)
  (polish : ∀ assignment ∈ netlist.assignments, Polish assignment.expression)
  (stateless : netlist.flipflops = [])
include orderly polish stateless

/-- A simulator without flip-flops answers a vector with what Boolean algebra makes of it. -/
theorem Simulator.takes_of_isVector (runs : simulator.Runs netlist) {line : List Char}
    (vector : Stimulus.IsVector netlist.inputs.length line) :
    simulator.Takes netlist.inputs.length line ∧
      ∃ row, netlist.Computes (Stimulus.bits line) [] row [] ∧
        (simulator.follow [line]).outputs = row.map .ofBool := by
  have known : simulator.state = ([] : List Bool).map .ofBool := by
    rw [List.map_nil, ← List.length_eq_zero_iff, runs.state, stateless]
    rfl
  obtain ⟨ticked, row, next, computes, shown, _⟩ :=
    simulator.tick_bits orderly polish runs known vector.bits_length
  rw [← Stimulus.levels_eq_map_bits] at ticked shown
  obtain rfl : next = [] := by
    rw [← List.length_eq_zero_iff, computes.next_length, stateless]
    rfl
  exact ⟨⟨vector, ticked⟩, row, computes, shown⟩

theorem Simulator.transcript_of_isVector (runs : simulator.Runs netlist) {lines : List (List Char)}
    (vectors : ∀ line ∈ lines, Stimulus.IsVector netlist.inputs.length line) :
    simulator.TakesAll netlist.inputs.length lines ∧
      ∃ rows, List.Forall₂ (fun line row => netlist.Computes (Stimulus.bits line) [] row [])
          lines rows ∧
        simulator.transcript lines = rows.flatMap bitLine := by
  induction lines generalizing simulator with
  | nil => exact ⟨.nil, [], .nil, rfl⟩
  | cons line lines ih =>
      obtain ⟨vector, later⟩ := List.forall_mem_cons.mp vectors
      obtain ⟨takes, row, computes, shown⟩ :=
        Simulator.takes_of_isVector orderly polish stateless runs vector
      have next : (simulator.follow [line]).Runs netlist :=
        runs.tick .level (Stimulus.levels line)
      obtain ⟨takesAll, rows, all, written⟩ := ih next later
      refine ⟨TakesAll.cons_iff.mpr ⟨takes, takesAll⟩, row :: rows, .cons computes all, ?_⟩
      have first : (simulator.follow [line]).outputs.map Level.toChar ++ ['\n'] = bitLine row := by
        rw [shown]
        exact outputLine_map_ofBool row
      rw [transcript_cons, first, written, List.flatMap_cons]

theorem Simulation.unknown_not_mem_written (runs : simulator.Runs netlist)
    (lines : List StimulusLine) (number : Nat) (room : Option Nat) :
    'x' ∉ (run netlist.inputs.length number lines room simulator).written := by
  induction lines generalizing simulator number room with
  | nil => simp [run]
  | cons first rest ih =>
      cases first with
      | undecodable => simp [run, stop]
      | text line =>
          cases read : Stimulus.readVector netlist.inputs.length line with
          | error cause => simp [run, read, stop]
          | ok inputs =>
              have vector := Stimulus.isVector_of_readVector read
              obtain rfl := Except.ok.inj (vector.readVector.symm.trans read)
              obtain ⟨takes, row, _, shown⟩ :=
                Simulator.takes_of_isVector orderly polish stateless runs vector
              have text : outputLine (simulator.tick (Stimulus.levels line)).circuit.outputs =
                  bitLine row := by
                rw [← outputLine_map_ofBool, ← shown]
                rfl
              simp only [run, read, takes.ticks, text]
              split
              · exact fun member => unknown_not_mem_bitLine row (List.mem_of_mem_take member)
              · rw [List.mem_append, not_or]
                exact ⟨unknown_not_mem_bitLine row, ih (runs.tick .level _) _ _⟩

end

namespace Netlist

/-- With every input and every flip-flop low or high, a tick gives the one solution that the
equations have in Boolean algebra. Without flip-flops every vector of a stream is answered with that
solution, and no unknown level is ever written. -/
theorem definite_of_definite {declaration : Declaration} {netlist : Netlist}
    (resolved : declaration.resolve = .ok netlist)
    (polish : ∀ assignment ∈ netlist.assignments, Polish assignment.expression) :
    (∀ (simulator : Simulator) (inputs state : List Bool), simulator.Runs netlist →
        inputs.length = netlist.inputs.length → simulator.state = state.map .ofBool →
          (simulator.tick (inputs.map .ofBool)).result = .ok () ∧
            ∃ outputs next,
              (simulator.tick (inputs.map .ofBool)).circuit.outputs = outputs.map .ofBool ∧
              (simulator.tick (inputs.map .ofBool)).circuit.state = next.map .ofBool ∧
              ∀ others later, netlist.Computes inputs state others later ↔
                others = outputs ∧ later = next) ∧
      (netlist.flipflops = [] →
        (∀ lines : List (List Char),
          (∀ line ∈ lines, Stimulus.IsVector netlist.inputs.length line) →
            (netlist.simulate (lines.map .text) none).result = .ok lines.length ∧
              ∃ rows,
                List.Forall₂ (fun line row => netlist.Computes (Stimulus.bits line) [] row [])
                  lines rows ∧
                (netlist.simulate (lines.map .text) none).written = rows.flatMap bitLine ∧
                ∀ rest, rows.flatMap bitLine <+:
                  (netlist.simulate (lines.map .text ++ rest) none).written) ∧
          ∀ lines room, 'x' ∉ (netlist.simulate lines room).written) := by
  have orderly := Declaration.orderly_of_resolve resolved
  refine ⟨?_, fun stateless => ⟨?_, fun lines room => ?_⟩⟩
  · intro simulator inputs state runs inputsLength known
    obtain ⟨ticked, outputs, next, computes, shown, kept⟩ :=
      simulator.tick_bits orderly polish runs known inputsLength
    have stateLength : state.length = netlist.flipflops.length := by
      rw [← runs.state, known, List.length_map]
    refine ⟨ticked, outputs, next, shown, kept, fun others later => ⟨fun other => ?_, ?_⟩⟩
    · exact other.unique orderly inputsLength stateLength polish computes
    · rintro ⟨rfl, rfl⟩
      exact computes
  · intro lines vectors
    obtain ⟨takes, rows, computes, written⟩ :=
      Simulator.transcript_of_isVector orderly polish stateless netlist.simulator_runs vectors
    obtain ⟨finished, shown, _⟩ := (netlist.lineByLine_simulate lines).finished takes
    refine ⟨finished, rows, computes, shown.trans written, fun rest => ?_⟩
    rw [(simulate_of_takesAll takes rest).2, written]
    exact List.prefix_append _ _
  · exact Simulation.unknown_not_mem_written orderly polish stateless netlist.simulator_runs _ _ _

end Netlist

def Declaration.fullAdder : Declaration where
  name := "full_adder"
  clocked := false
  inputs := ["a", "b", "cin"]
  flipflops := []
  outputs := ["sum", "cout"]
  assignments := [
    ⟨.output 0, [.signal (.input 0), .signal (.input 1), .gate (.binary .xor),
      .signal (.input 2), .gate (.binary .xor)]⟩,
    ⟨.output 1, [.signal (.input 0), .signal (.input 1), .gate (.binary .and),
      .signal (.input 2), .signal (.input 0), .signal (.input 1), .gate (.binary .xor),
      .gate (.binary .and), .gate (.binary .or)]⟩]

def Netlist.fullAdder : Netlist :=
  ⟨Declaration.fullAdder.toHeader, Declaration.fullAdder.assignments⟩

/-- One output of the ring reads the other one, and nothing drives its third flip-flop. -/
theorem Netlist.definite_of_definite_ring :
    Declaration.ring.resolve = .ok ring ∧
      ring.Computes [true, false, true] [false, true, false] [true, true] [true, false, false] ∧
      Declaration.fullAdder.resolve = .ok fullAdder ∧
      (∃ row, fullAdder.Computes [true, false, true] [] row [] ∧ bitLine row = ['0', '1', '\n']) ∧
      'x' ∉ (fullAdder.simulate [.text ['1', '0', '1', '\r'], .undecodable] (some 2)).written := by
  have resolved : Declaration.ring.resolve = .ok ring := by decide +kernel
  obtain ⟨ticks, _⟩ := definite_of_definite resolved (by decide +kernel)
  obtain ⟨_, outputs, next, shown, kept, unique⟩ :=
    ticks ⟨ring, (), [.low, .high, .low], []⟩ [true, false, true] [false, true, false] ⟨rfl, rfl⟩
      rfl rfl
  have adder : Declaration.fullAdder.resolve = .ok fullAdder := by decide +kernel
  obtain ⟨_, stateless⟩ := definite_of_definite adder (by decide +kernel)
  obtain ⟨streams, known⟩ := stateless rfl
  have vectors : ∀ line ∈ [['1', '0', '1']], Stimulus.IsVector fullAdder.inputs.length line := by
    rintro line (_ | ⟨_, ⟨⟩⟩)
    exact ⟨rfl, by simp [Stimulus.trimReturns, Stimulus.IsBit]⟩
  obtain ⟨_, rows, computes, written, _⟩ := streams [['1', '0', '1']] vectors
  obtain - | ⟨computes, ⟨⟩⟩ := computes
  have injective := List.map_injective_iff.mpr Level.ofBool_injective
  refine ⟨resolved, (unique _ _).mpr ⟨injective ?_, injective ?_⟩, adder, ⟨_, computes, ?_⟩,
    known _ _⟩
  · exact Eq.trans (by decide) shown
  · exact Eq.trans (by decide) kept
  · rw [List.flatMap_cons, List.flatMap_nil, List.append_nil] at written
    exact written.symm.trans (by decide)

end GateLevel
