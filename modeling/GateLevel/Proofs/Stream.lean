import GateLevel.Proofs.Failure
import GateLevel.Proofs.Lines
import GateLevel.Proofs.Noninterference

/-! A simulation runs its circuit over the lines of its stream, one tick and one written line for
each, and stops at the first line that is no vector or whose tick fails. -/

namespace GateLevel

namespace Stimulus

def IsBit (c : Char) : Prop := c = '0' ∨ c = '1'

instance (c : Char) : Decidable (IsBit c) := inferInstanceAs (Decidable (c = '0' ∨ c = '1'))

def level (bit : Char) : Level := if bit = '1' then .high else .low

theorem readBit_of_bit {c : Char} (bit : IsBit c) : readBit c = .ok (level c) := by
  rcases bit with rfl | rfl <;> rfl

theorem readBit_of_not_bit {c : Char} (bad : ¬ IsBit c) : readBit c = .error (.invalidBit c) := by
  obtain ⟨notLow, notHigh⟩ := not_or.mp bad
  simp [readBit]

theorem readBits_of_bits {line : List Char} (bits : ∀ c ∈ line, IsBit c) :
    readBits line = .ok (line.map level) := by
  induction line with
  | nil => rfl
  | cons c rest ih =>
      obtain ⟨bit, later⟩ := List.forall_mem_cons.mp bits
      rw [readBits, readBit_of_bit bit, ih later]
      rfl

theorem readBits_of_bad {front back : List Char} {c : Char} (bits : ∀ bit ∈ front, IsBit bit)
    (bad : ¬ IsBit c) : readBits (front ++ c :: back) = .error (.invalidBit c) := by
  induction front with
  | nil =>
      rw [List.nil_append, readBits, readBit_of_not_bit bad]
      rfl
  | cons first front ih =>
      obtain ⟨bit, later⟩ := List.forall_mem_cons.mp bits
      rw [List.cons_append, readBits, readBit_of_bit bit, ih later]
      rfl

/-- The line is a vector once the carriage returns at its end are dropped. -/
structure IsVector (width : Nat) (line : List Char) : Prop where
  sized : (trimReturns line).length = width
  bits : ∀ c ∈ trimReturns line, IsBit c

def levels (line : List Char) : List Level := (trimReturns line).map level

theorem IsVector.readVector {width : Nat} {line : List Char} (vector : IsVector width line) :
    readVector width line = .ok (levels line) := by
  rw [Stimulus.readVector, if_neg (not_not.mpr vector.sized)]
  exact readBits_of_bits vector.bits

end Stimulus

namespace Simulator

variable {width : Nat} {simulator : Simulator} {lines : List (List Char)}

def follow (simulator : Simulator) (lines : List (List Char)) : Simulator :=
  simulator.advance (lines.map Stimulus.levels)

structure Takes (width : Nat) (simulator : Simulator) (line : List Char) : Prop where
  vector : Stimulus.IsVector width line
  ticks : (simulator.tick (Stimulus.levels line)).result = .ok ()

def TakesAll (width : Nat) (simulator : Simulator) (lines : List (List Char)) : Prop :=
  ∀ before line rest, lines = before ++ line :: rest → (simulator.follow before).Takes width line

/-- Why a simulator cannot take a line: the line has the wrong length, or else a character that is
no bit, or else the tick fails. -/
inductive Refuses (width number : Nat) (simulator : Simulator) (line : List Char) :
    SimulationError → Prop
  | width (wrong : (Stimulus.trimReturns line).length ≠ width) :
      Refuses width number simulator line
        (.invalidVector number (.width width (Stimulus.trimReturns line).length))
  | bit {front back : List Char} {c : Char} (sized : (Stimulus.trimReturns line).length = width)
      (split : Stimulus.trimReturns line = front ++ c :: back)
      (bits : ∀ bit ∈ front, Stimulus.IsBit bit) (bad : ¬ Stimulus.IsBit c) :
      Refuses width number simulator line (.invalidVector number (.invalidBit c))
  | tick {cause : EvalError} (vector : Stimulus.IsVector width line)
      (failed : (simulator.tick (Stimulus.levels line)).result = .error cause) :
      Refuses width number simulator line (.evaluation number cause)

theorem exists_refuses {line : List Char} (number : Nat) (refused : ¬ simulator.Takes width line) :
    ∃ error, simulator.Refuses width number line error := by
  by_cases sized : (Stimulus.trimReturns line).length = width
  · by_cases bits : ∀ c ∈ Stimulus.trimReturns line, Stimulus.IsBit c
    · cases ticked : (simulator.tick (Stimulus.levels line)).result with
      | ok => exact absurd ⟨⟨sized, bits⟩, ticked⟩ refused
      | error cause => exact ⟨_, .tick ⟨sized, bits⟩ ticked⟩
    · have found : ∃ c, (Stimulus.trimReturns line).find? (¬ Stimulus.IsBit ·) = some c := by
        simpa [← Option.isSome_iff_exists] using bits
      obtain ⟨c, found⟩ := found
      obtain ⟨bad, front, back, split, earlier⟩ := List.find?_eq_some_iff_append.mp found
      exact ⟨_, .bit sized split (by simpa using earlier) (by simpa using bad)⟩
  · exact ⟨_, .width sized⟩

def transcript (simulator : Simulator) (lines : List (List Char)) : List Char :=
  (List.range lines.length).flatMap fun position =>
    (simulator.follow (lines.take (position + 1))).outputs.map Level.toChar ++ ['\n']

theorem transcript_cons (simulator : Simulator) (line : List Char) (lines : List (List Char)) :
    simulator.transcript (line :: lines) =
      (simulator.follow [line]).outputs.map Level.toChar ++ ['\n'] ++
        (simulator.follow [line]).transcript lines := by
  rw [transcript, List.length_cons, List.range_succ_eq_map, List.flatMap_cons, List.flatMap_map]
  rfl

namespace TakesAll

theorem nil : simulator.TakesAll width [] := fun before _ _ split =>
  absurd split.symm (List.append_ne_nil_of_right_ne_nil before (List.cons_ne_nil _ _))

theorem cons_iff {line : List Char} : simulator.TakesAll width (line :: lines) ↔
    simulator.Takes width line ∧ (simulator.follow [line]).TakesAll width lines := by
  constructor
  · intro takes
    exact ⟨takes [] line lines rfl, fun before next rest split =>
      takes (line :: before) next rest (congrArg (line :: ·) split)⟩
  · rintro ⟨first, later⟩ before next rest split
    cases before with
    | nil =>
        obtain ⟨rfl, rfl⟩ := List.cons.inj split
        exact first
    | cons other before =>
        obtain ⟨rfl, remaining⟩ := List.cons.inj split
        exact later before next rest remaining

theorem of_append {front back : List (List Char)}
    (takes : simulator.TakesAll width (front ++ back)) : simulator.TakesAll width front :=
  fun before line rest split =>
    takes before line (rest ++ back) (by rw [split, List.append_assoc, List.cons_append])

theorem sized {netlist : Netlist} (takes : simulator.TakesAll width lines)
    (sized : Sized netlist simulator) : Sized netlist (simulator.follow lines) := by
  induction lines generalizing simulator with
  | nil => exact sized
  | cons line lines ih =>
      obtain ⟨first, later⟩ := cons_iff.mp takes
      exact ih later (sized.tick first.ticks)

end TakesAll

end Simulator

namespace Simulation

variable {width number : Nat} {simulator : Simulator}

theorem run_of_takes {line : List Char} (takes : simulator.Takes width line)
    (number : Nat) (rest : List StimulusLine) :
    (run width number (.text line :: rest) none simulator).result =
        (run width (number + 1) rest none (simulator.follow [line])).result ∧
      (run width number (.text line :: rest) none simulator).written =
        (simulator.follow [line]).outputs.map Level.toChar ++ ['\n'] ++
          (run width (number + 1) rest none (simulator.follow [line])).written := by
  simp only [run, takes.vector.readVector, takes.ticks, roomAfter]
  exact ⟨rfl, rfl⟩

theorem run_of_takesAll {front : List (List Char)} (takes : simulator.TakesAll width front)
    (number : Nat) (back : List StimulusLine) :
    (run width number (front.map .text ++ back) none simulator).result =
        (run width (number + front.length) back none (simulator.follow front)).result ∧
      (run width number (front.map .text ++ back) none simulator).written =
        simulator.transcript front ++
          (run width (number + front.length) back none (simulator.follow front)).written := by
  induction front generalizing simulator number with
  | nil => exact ⟨rfl, rfl⟩
  | cons line front ih =>
      obtain ⟨first, later⟩ := Simulator.TakesAll.cons_iff.mp takes
      obtain ⟨result, written⟩ := run_of_takes first number (front.map .text ++ back)
      obtain ⟨laterResult, laterWritten⟩ := ih later (number + 1)
      have moved : number + 1 + front.length = number + (line :: front).length := by
        rw [List.length_cons]
        omega
      rw [moved] at laterResult laterWritten
      rw [List.map_cons, List.cons_append]
      refine ⟨result.trans laterResult, ?_⟩
      rw [written, laterWritten, Simulator.transcript_cons]
      simp only [List.append_assoc]
      rfl

theorem run_of_refuses {line : List Char} {error : SimulationError}
    (refuses : simulator.Refuses width number line error) (rest : List StimulusLine) :
    (run width number (.text line :: rest) none simulator).result = .error error ∧
      (run width number (.text line :: rest) none simulator).written = [] := by
  cases refuses with
  | width wrong =>
      have read : Stimulus.readVector width line = .error (.width width _) := if_pos wrong
      simp only [run, read, stop, and_self]
  | @bit _ _ c sized split bits bad =>
      have read : Stimulus.readVector width line = .error (.invalidBit c) := by
        rw [Stimulus.readVector, if_neg (not_not.mpr sized), split]
        exact Stimulus.readBits_of_bad bits bad
      simp only [run, read, stop, and_self]
  | tick vector failed =>
      rw [run_of_tick_error vector.readVector failed]
      exact ⟨rfl, rfl⟩

end Simulation

namespace Netlist

/-- The simulation has taken all lines, or else stopped at the first one that it could not take and
written what it writes for the lines before. -/
structure LineByLine (netlist : Netlist) (lines : List (List Char)) (simulation : Simulation) :
    Prop where
  finished : netlist.simulator.TakesAll netlist.inputs.length lines →
    simulation.result = .ok lines.length ∧
      simulation.written = netlist.simulator.transcript lines ∧
      ∀ position < lines.length,
        (netlist.simulator.follow (lines.take (position + 1))).outputs.length =
          netlist.outputs.length
  stopped : ∀ before line rest, lines = before ++ line :: rest →
    netlist.simulator.TakesAll netlist.inputs.length before →
    ¬ (netlist.simulator.follow before).Takes netlist.inputs.length line →
      simulation.written = (netlist.simulate (before.map .text) none).written ∧
        ∃ error, simulation.result = .error error ∧
          (netlist.simulator.follow before).Refuses netlist.inputs.length (before.length + 1) line
            error

theorem simulate_of_takesAll {netlist : Netlist} {front : List (List Char)}
    (takes : netlist.simulator.TakesAll netlist.inputs.length front) (back : List StimulusLine) :
    (netlist.simulate (front.map .text ++ back) none).result =
        (Simulation.run netlist.inputs.length (front.length + 1) back none
          (netlist.simulator.follow front)).result ∧
      (netlist.simulate (front.map .text ++ back) none).written =
        netlist.simulator.transcript front ++
          (Simulation.run netlist.inputs.length (front.length + 1) back none
            (netlist.simulator.follow front)).written := by
  rw [Nat.add_comm front.length 1]
  exact Simulation.run_of_takesAll takes 1 back

theorem lineByLine_simulate (netlist : Netlist) (lines : List (List Char)) :
    netlist.LineByLine lines (netlist.simulate (lines.map .text) none) := by
  constructor
  · intro takes
    obtain ⟨result, written⟩ := simulate_of_takesAll takes []
    rw [List.append_nil] at result written
    refine ⟨result, written.trans (List.append_nil _), fun position _ => ?_⟩
    have front : netlist.simulator.TakesAll netlist.inputs.length (lines.take (position + 1)) :=
      Simulator.TakesAll.of_append (by rwa [List.take_append_drop])
    exact (front.sized (Simulator.sized_simulator netlist)).outputs
  · rintro before line rest rfl takes refused
    obtain ⟨error, refuses⟩ := Simulator.exists_refuses (before.length + 1) refused
    obtain ⟨result, written⟩ := simulate_of_takesAll takes ((line :: rest).map .text)
    obtain ⟨stopped, silent⟩ := Simulation.run_of_refuses refuses (rest.map .text)
    -- The run that ends with the lines before writes the same transcript and then nothing.
    obtain ⟨_, alone⟩ := simulate_of_takesAll takes []
    rw [List.append_nil] at alone
    rw [List.map_append]
    refine ⟨?_, error, result.trans stopped, refuses⟩
    rw [written, alone, List.map_cons, silent]
    rfl

/-- The bytes of a text are simulated as the lines that the text falls into. -/
theorem simulate_stream (netlist : Netlist) (text : String) :
    ∃ lines, Text.Broken '\n' '\r' text.toList lines ∧
      netlist.LineByLine lines
        (netlist.simulate (StimulusLine.ofBytes text.toUTF8.toList) none) := by
  have broken := Text.broken_linesBy '\n' '\r' text.toList
  refine ⟨_, broken, ?_⟩
  rw [StimulusLine.ofBytes_of_broken broken]
  exact lineByLine_simulate netlist _

def delay : Netlist where
  name := "Delay"
  clocked := true
  inputs := ["D"]
  flipflops := [0]
  outputs := ["Q"]
  assignments := [
    ⟨.output 0, [.signal (.flipflop 0)]⟩,
    ⟨.flipflop 0, [.signal (.input 0)]⟩]

/-- The first stream ends without a line feed. In the second one the last line could be taken, but
is not reached. -/
theorem simulate_stream_delay :
    (delay.simulate (StimulusLine.ofBytes "1\r\n0\r".toUTF8.toList) none).result = .ok 2 ∧
      (delay.simulate (StimulusLine.ofBytes "1\r\n0\r".toUTF8.toList) none).written =
        ['x', '\n', '1', '\n'] ∧
      (delay.simulate (StimulusLine.ofBytes "1\nü\r\n0".toUTF8.toList) none).result =
        .error (.invalidVector 2 (.invalidBit 'ü')) ∧
      (delay.simulate (StimulusLine.ofBytes "1\nü\r\n0".toUTF8.toList) none).written =
        ['x', '\n'] := by
  have high : delay.simulator.Takes 1 ['1'] :=
    ⟨⟨rfl, List.forall_mem_singleton.mpr (Or.inr rfl)⟩, by decide +kernel⟩
  have low : (delay.simulator.follow [['1']]).Takes 1 ['0', '\r'] :=
    ⟨⟨rfl, List.forall_mem_singleton.mpr (Or.inl rfl)⟩, by decide +kernel⟩
  obtain ⟨lines, broken, all⟩ := simulate_stream delay "1\r\n0\r"
  obtain rfl : [['1'], ['0', '\r']] = lines := by
    rw [← broken.linesBy_eq]
    decide +kernel
  obtain ⟨result, written, _⟩ := all.finished
    (Simulator.TakesAll.cons_iff.mpr ⟨high, Simulator.TakesAll.cons_iff.mpr ⟨low, .nil⟩⟩)
  obtain ⟨others, otherBroken, some⟩ := simulate_stream delay "1\nü\r\n0"
  obtain rfl : [['1'], ['ü'], ['0']] = others := by
    rw [← otherBroken.linesBy_eq]
    decide +kernel
  have bad : ¬ Stimulus.IsBit 'ü' := by decide
  obtain ⟨before, error, stopped, refuses⟩ :=
    some.stopped [['1']] ['ü'] [['0']] rfl (Simulator.TakesAll.cons_iff.mpr ⟨high, .nil⟩)
      fun takes => bad (takes.vector.bits 'ü' (by decide))
  refine ⟨result, written.trans (by decide +kernel), ?_, before.trans (by decide +kernel)⟩
  rw [stopped]
  cases refuses with
  | width wrong => exact absurd rfl wrong
  | @bit front back c _ split _ _ =>
      have only : Stimulus.trimReturns ['ü'] = ['ü'] := by decide
      have member : c ∈ ['ü'] := by
        rw [← only, split]
        simp
      rw [List.mem_singleton.mp member]
      rfl
  | tick vector _ => exact absurd (vector.bits 'ü' (by decide)) bad

end Netlist

end GateLevel
