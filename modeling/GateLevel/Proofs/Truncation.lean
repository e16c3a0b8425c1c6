import GateLevel.Proofs.Lines
import GateLevel.Simulation

/-! What a simulation writes where there is not room for all of it, and how it ends then. In what
portions the lines are taken does not matter. -/

namespace GateLevel

/-- A writer takes bytes off the front of a buffer, fewer perhaps than it is offered. It takes
`room` bytes in total, and something of every buffer as long as it has room. No limit is `none`. -/
structure Writer (ω : Type) where
  accept : ω → List UInt8 → Nat × ω
  room : ω → Option Nat
  bounded (state : ω) (buffer : List UInt8) : (accept state buffer).1 ≤ buffer.length
  fits (state : ω) (buffer : List UInt8) :
    ∀ limit, room state = some limit → (accept state buffer).1 ≤ limit
  left (state : ω) (buffer : List UInt8) :
    room (accept state buffer).2 = (room state).map (· - (accept state buffer).1)
  proceeds (state : ω) (buffer : List UInt8) : buffer ≠ [] → room state ≠ some 0 →
    (accept state buffer).1 ≠ 0

namespace Writer

variable {ω : Type} {writer : Writer ω} {state : ω}

def writeAll (writer : Writer ω) : List UInt8 → ω → List UInt8 × Option ω
  | [], state => ([], some state)
  | first :: rest, state =>
    let count := (writer.accept state (first :: rest)).1
    if count = 0 then ([], none)
    else
      let later := writeAll writer ((first :: rest).drop count)
        (writer.accept state (first :: rest)).2
      ((first :: rest).take count ++ later.1, later.2)
termination_by buffer => buffer.length
decreasing_by
  simp only [List.length_drop, List.length_cons]
  omega

def writeEach (writer : Writer ω) : List (List UInt8) → ω → List UInt8 × Option ω
  | [], state => ([], some state)
  | buffer :: rest, state =>
    match writer.writeAll buffer state with
    | (written, none) => (written, none)
    | (written, some next) =>
      let later := writeEach writer rest next
      (written ++ later.1, later.2)

/-- What comes of offering the bytes: all are written, or those that there is room for. -/
inductive Delivers (writer : Writer ω) (state : ω) (bytes : List UInt8) :
    List UInt8 × Option ω → Prop
  | all {last : ω} (fits : ∀ limit, writer.room state = some limit → bytes.length ≤ limit)
      (left : writer.room last = (writer.room state).map (· - bytes.length)) :
      Delivers writer state bytes (bytes, some last)
  | part {limit : Nat} (limited : writer.room state = some limit) (short : limit < bytes.length) :
      Delivers writer state bytes (bytes.take limit, none)

namespace Delivers

theorem nil (state : ω) : writer.Delivers state [] ([], some state) :=
  .all (by simp) (by simp)

theorem accept (writer : Writer ω) (state : ω) (buffer : List UInt8) :
    writer.Delivers state (buffer.take (writer.accept state buffer).1)
      (buffer.take (writer.accept state buffer).1, some (writer.accept state buffer).2) := by
  have length := List.length_take_of_le (writer.bounded state buffer)
  refine .all ?_ ?_
  · rw [length]
    exact writer.fits state buffer
  · rw [length]
    exact writer.left state buffer

theorem append {front back : List UInt8} {written : List UInt8} {middle : ω}
    {outcome : List UInt8 × Option ω} (first : writer.Delivers state front (written, some middle))
    (second : writer.Delivers middle back outcome) :
    writer.Delivers state (front ++ back) (written ++ outcome.1, outcome.2) := by
  cases first with
  | all fits left =>
      cases second with
      | all later last =>
          refine .all (fun limit limited => ?_) ?_
          · have bound := fits limit limited
            have more := later (limit - front.length) (by rw [left, limited]; rfl)
            rw [List.length_append]
            omega
          · rw [last, left, Option.map_map, List.length_append]
            simp [Function.comp_def, Nat.sub_sub]
      | part limited short =>
          rw [left, Option.map_eq_some_iff] at limited
          obtain ⟨limit, limited, rfl⟩ := limited
          have bound := fits limit limited
          have cut : front ++ back.take (limit - front.length) = (front ++ back).take limit := by
            rw [List.take_append, List.take_of_length_le bound]
          rw [cut]
          exact .part limited (by rw [List.length_append]; omega)

theorem append_none {front : List UInt8} {written : List UInt8}
    (first : writer.Delivers state front (written, none)) (back : List UInt8) :
    writer.Delivers state (front ++ back) (written, none) := by
  cases first with
  | @part limit limited short =>
      have cut : (front ++ back).take limit = front.take limit :=
        List.take_append_of_le_length (Nat.le_of_lt short)
      rw [← cut]
      exact .part limited (by rw [List.length_append]; omega)

end Delivers

theorem writeAll_delivers (writer : Writer ω) (buffer : List UInt8) (state : ω) :
    writer.Delivers state buffer (writer.writeAll buffer state) := by
  fun_induction writeAll writer buffer state with
  | case1 state => exact .nil state
  | case2 first rest state count none =>
      -- A writer that takes nothing of a buffer has no room.
      have full : writer.room state = some 0 := by
        by_contra unspent
        exact writer.proceeds state _ (List.cons_ne_nil first rest) unspent none
      exact .part full (by simp)
  | case3 first rest state count some later ih =>
      have whole := (Delivers.accept writer state (first :: rest)).append ih
      rwa [List.take_append_drop] at whole

theorem writeEach_delivers (writer : Writer ω) (buffers : List (List UInt8)) (state : ω) :
    writer.Delivers state buffers.flatten (writer.writeEach buffers state) := by
  induction buffers generalizing state with
  | nil => exact .nil state
  | cons buffer rest ih =>
      have first := writer.writeAll_delivers buffer state
      rw [writeEach, List.flatten_cons]
      generalize writer.writeAll buffer state = outcome at first ⊢
      obtain ⟨written, - | next⟩ := outcome
      · exact first.append_none rest.flatten
      · exact first.append (ih next)

end Writer

namespace Text

theorem utf8_eq_map {text : List Char} (ascii : ∀ c ∈ text, c.toNat < 128) :
    utf8 text = text.map fun c => UInt8.ofNat c.toNat := by
  rw [utf8, List.map_eq_flatMap]
  refine List.flatMap_congr fun c member => ?_
  have small : c.val.toNat ≤ 127 := Nat.le_of_lt_succ (ascii c member)
  simp only [String.utf8EncodeChar, if_pos small]
  rfl

theorem length_utf8 {text : List Char} (ascii : ∀ c ∈ text, c.toNat < 128) :
    (utf8 text).length = text.length := by
  rw [utf8_eq_map ascii, List.length_map]

theorem utf8_take {text : List Char} (ascii : ∀ c ∈ text, c.toNat < 128) (count : Nat) :
    utf8 (text.take count) = (utf8 text).take count := by
  rw [utf8_eq_map ascii, utf8_eq_map fun c member => ascii c (List.mem_of_mem_take member),
    List.map_take]

end Text

namespace Simulation

/-- The second simulation is the first one, as far as there is room for it. -/
structure CutAt (room : Nat) (whole cut : Simulation) : Prop where
  written : cut.written = whole.written.take room
  full : room < whole.written.length → cut.result = .error .writeZero ∧ cut.begun <+: whole.begun
  fits : whole.written.length ≤ room → cut = whole

theorem CutAt.of_nil {simulation : Simulation} (silent : simulation.written = []) (room : Nat) :
    CutAt room simulation simulation :=
  ⟨by simp [silent], by simp [silent], fun _ => rfl⟩

variable {room : Nat} {text : List Char} {whole cut : Simulation} (begun : List Target)

theorem CutAt.line (later : CutAt (room - text.length) whole cut) (bound : text.length ≤ room) :
    CutAt room ⟨text ++ whole.written, begun ++ whole.begun, whole.result⟩
      ⟨text ++ cut.written, begun ++ cut.begun, cut.result⟩ := by
  refine ⟨?_, fun short => ?_, fun enough => ?_⟩
  · rw [later.written, List.take_append, List.take_of_length_le bound]
  · rw [List.length_append] at short
    obtain ⟨result, earlier⟩ := later.full (by omega)
    exact ⟨result, (List.prefix_append_right_inj begun).mpr earlier⟩
  · rw [List.length_append] at enough
    rw [later.fits (by omega)]

theorem CutAt.of_short (short : room < text.length) (later : Simulation) :
    CutAt room ⟨text ++ later.written, begun ++ later.begun, later.result⟩
      ⟨text.take room, begun, .error .writeZero⟩ := by
  refine ⟨?_, fun _ => ⟨rfl, List.prefix_append _ _⟩, fun enough => ?_⟩
  · rw [List.take_append_of_le_length (Nat.le_of_lt short)]
  · rw [List.length_append] at enough
    omega

theorem run_cutAt (width number : Nat) (lines : List StimulusLine) (room : Nat)
    (simulator : Simulator) :
    CutAt room (run width number lines none simulator)
      (run width number lines (some room) simulator) := by
  induction lines generalizing number room simulator with
  | nil => exact .of_nil rfl room
  | cons line rest ih =>
      cases line with
      | undecodable => exact .of_nil rfl room
      | text vector =>
          cases read : Stimulus.readVector width vector with
          | error cause =>
              simp only [run, read]
              exact .of_nil rfl room
          | ok inputs =>
              cases ticked : (simulator.tick inputs).result with
              | error cause =>
                  simp only [run, read, ticked]
                  exact .of_nil rfl room
              | ok done =>
                  simp only [run, read, ticked, roomAfter]
                  by_cases bound :
                      (outputLine (simulator.tick inputs).circuit.outputs).length ≤ room
                  · simp only [if_pos bound]
                    exact (ih (number + 1) _ _).line _ bound
                  · simp only [if_neg bound]
                    exact .of_short _ (Nat.lt_of_not_le bound) _

theorem ascii_of_mem_outputLine {outputs : List Level} {c : Char}
    (member : c ∈ outputLine outputs) : c.toNat < 128 := by
  rcases List.mem_append.mp member with shown | ended
  · obtain ⟨level, _, rfl⟩ := List.mem_map.mp shown
    cases level <;> decide
  · obtain rfl := List.mem_singleton.mp ended
    decide

theorem ascii_of_mem_written {width number : Nat} {lines : List StimulusLine} {room : Option Nat}
    {simulator : Simulator} {c : Char}
    (member : c ∈ (run width number lines room simulator).written) : c.toNat < 128 := by
  induction lines generalizing number room simulator with
  | nil => cases member
  | cons line rest ih =>
      cases line with
      | undecodable => cases member
      | text vector =>
          simp only [run] at member
          split at member
          · cases member
          · split at member
            · cases member
            · split at member
              · exact ascii_of_mem_outputLine (List.mem_of_mem_take member)
              · rcases List.mem_append.mp member with here | later
                · exact ascii_of_mem_outputLine here
                · exact ih later

end Simulation

namespace Writer

variable {ω : Type} {writer : Writer ω} {state : ω}

def writeOutputs (writer : Writer ω) (outputs : List Level) : ω → List UInt8 × Option ω :=
  writer.writeEach [Text.utf8 (outputs.map Level.toChar), Text.utf8 ['\n']]

def run (writer : Writer ω) (width : Nat) :
    Nat → List StimulusLine → ω → Simulator → List UInt8 × Except SimulationError Nat
  | number, [], _, _ => ([], .ok (number - 1))
  | _, .undecodable :: _, _, _ => ([], .error .invalidData)
  | number, .text vector :: rest, state, simulator =>
    match Stimulus.readVector width vector with
    | .error cause => ([], .error (.invalidVector number cause))
    | .ok inputs =>
      let tick := Simulator.tick inputs simulator
      match tick.result with
      | .error cause => ([], .error (.evaluation number cause))
      | .ok () =>
        match writer.writeOutputs tick.circuit.outputs state with
        | (written, none) => (written, .error .writeZero)
        | (written, some next) =>
          let later := writer.run width (number + 1) rest next tick.circuit
          (written ++ later.1, later.2)

def outcome (simulation : Simulation) : List UInt8 × Except SimulationError Nat :=
  (Text.utf8 simulation.written, simulation.result)

theorem writeOutputs_delivers (writer : Writer ω) (outputs : List Level) (state : ω) :
    writer.Delivers state (Text.utf8 (Simulation.outputLine outputs))
      (writer.writeOutputs outputs state) := by
  have delivers := writer.writeEach_delivers
    [Text.utf8 (outputs.map Level.toChar), Text.utf8 ['\n']] state
  rwa [List.flatten_cons, List.flatten_singleton, ← Text.utf8_append] at delivers

theorem roomAfter_of_fits {text : List Char} {room : Option Nat}
    (ascii : ∀ c ∈ text, c.toNat < 128)
    (fits : ∀ limit, room = some limit → (Text.utf8 text).length ≤ limit) :
    Simulation.roomAfter text room = some (room.map (· - (Text.utf8 text).length)) := by
  rw [Text.length_utf8 ascii] at fits ⊢
  cases room with
  | none => rfl
  | some limit => exact if_pos (fits limit rfl)

theorem run_eq (writer : Writer ω) (width number : Nat) (lines : List StimulusLine) (state : ω)
    (simulator : Simulator) :
    writer.run width number lines state simulator =
      outcome (Simulation.run width number lines (writer.room state) simulator) := by
  induction lines generalizing number state simulator with
  | nil => rfl
  | cons line rest ih =>
      cases line with
      | undecodable => rfl
      | text vector =>
          cases read : Stimulus.readVector width vector with
          | error cause =>
              simp only [run, Simulation.run, read]
              rfl
          | ok inputs =>
              cases ticked : (simulator.tick inputs).result with
              | error cause =>
                  simp only [run, Simulation.run, read, ticked]
                  rfl
              | ok done =>
                  have delivers := writer.writeOutputs_delivers
                    (simulator.tick inputs).circuit.outputs state
                  have ascii : ∀ c ∈ Simulation.outputLine (simulator.tick inputs).circuit.outputs,
                      c.toNat < 128 := fun c => Simulation.ascii_of_mem_outputLine
                  simp only [run, Simulation.run, read, ticked]
                  generalize writer.writeOutputs _ state = taken at delivers ⊢
                  cases delivers with
                  | all fits left =>
                      rw [roomAfter_of_fits ascii fits, ← left]
                      simp only [ih, outcome, Text.utf8_append]
                  | @part limit limited short =>
                      rw [Text.length_utf8 ascii] at short
                      simp only [limited, Simulation.roomAfter, if_neg (Nat.not_le.mpr short),
                        outcome, Option.getD_some, Text.utf8_take ascii]

end Writer

namespace Netlist

def simulateInto {ω : Type} (netlist : Netlist) (writer : Writer ω) (lines : List StimulusLine)
    (state : ω) : List UInt8 × Except SimulationError Nat :=
  writer.run netlist.inputs.length 1 lines state netlist.simulator

/-- A simulation that has not enough room writes what there is room for, and fails for that reason.
One that has enough does not feel the limit. -/
theorem simulate_truncates (netlist : Netlist) (lines : List StimulusLine) (room : Nat) :
    let whole := netlist.simulate lines none
    let cut := netlist.simulate lines (some room)
    Text.utf8 cut.written = (Text.utf8 whole.written).take room ∧
      (room < (Text.utf8 whole.written).length → cut.result = .error .writeZero) ∧
      ((Text.utf8 whole.written).length ≤ room → cut = whole) ∧
      ∀ (ω : Type) (writer : Writer ω) (state : ω),
        (writer.room state = none →
          netlist.simulateInto writer lines state = (Text.utf8 whole.written, whole.result)) ∧
        (writer.room state = some room →
          netlist.simulateInto writer lines state = (Text.utf8 cut.written, cut.result)) := by
  intro whole cut
  have cutAt : Simulation.CutAt room whole cut :=
    Simulation.run_cutAt netlist.inputs.length 1 lines room netlist.simulator
  have ascii : ∀ c ∈ whole.written, c.toNat < 128 := fun c => Simulation.ascii_of_mem_written
  refine ⟨?_, fun short => ?_, fun enough => ?_, fun ω writer state => ⟨?_, ?_⟩⟩
  · rw [cutAt.written, Text.utf8_take ascii]
  · rw [Text.length_utf8 ascii] at short
    exact (cutAt.full short).1
  · rw [Text.length_utf8 ascii] at enough
    exact cutAt.fits enough
  · intro unlimited
    rw [simulateInto, writer.run_eq, unlimited]
    rfl
  · intro limited
    rw [simulateInto, writer.run_eq, limited]
    rfl

def fork : Netlist where
  name := "M"
  clocked := false
  inputs := ["a"]
  flipflops := []
  outputs := ["y", "z"]
  assignments :=
    [⟨.output 0, [.signal (.input 0)]⟩, ⟨.output 1, [.signal (.input 0), .gate .not]⟩]

def dribble : Writer Nat where
  accept room buffer :=
    let count := min 1 (min room buffer.length)
    (count, room - count)
  room := some
  bounded room buffer := by
    simp only
    omega
  fits room buffer := by
    intro limit limited
    obtain rfl := Option.some.inj limited
    simp only
    omega
  left room buffer := rfl
  proceeds room buffer nonempty unspent := by
    have length := List.length_pos_iff.mpr nonempty
    have left : room ≠ 0 := fun none => unspent (congrArg Option.some none)
    simp only
    omega

theorem simulate_truncates_midline :
    fork.simulateInto dribble (StimulusLine.ofText "0\n1\n2\n") 4 =
        (Text.utf8 "01\n1".toList, .error .writeZero) ∧
      fork.simulateInto dribble (StimulusLine.ofText "0\n1\n2\n") 6 =
        (Text.utf8 "01\n10\n".toList, .error (.invalidVector 3 (.invalidBit '2'))) := by
  have written : (fork.simulate (StimulusLine.ofText "0\n1\n2\n") none).written =
      "01\n10\n".toList := by
    decide +kernel
  obtain ⟨part, full, _, into⟩ := fork.simulate_truncates (StimulusLine.ofText "0\n1\n2\n") 4
  obtain ⟨_, _, fits, intoWhole⟩ := fork.simulate_truncates (StimulusLine.ofText "0\n1\n2\n") 6
  constructor
  · rw [(into Nat dribble 4).2 rfl, part, full (by rw [written]; decide +kernel), written]
    rfl
  · rw [(intoWhole Nat dribble 6).2 rfl, fits (by rw [written]; decide +kernel), written]
    decide +kernel

end Netlist

end GateLevel
