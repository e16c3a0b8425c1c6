import GateLevel.Circuit

/-! Circuits over logic levels, and their runs over a stream of input vectors, one line of text for
each tick. Every tick writes a line of outputs. -/

namespace GateLevel

def Interpretation.level : Interpretation Unit Level where
  invert operand _ := (operand.not, ())
  combine gate last first _ := (gate.apply first last, ())

abbrev Simulator := Circuit Unit Level

namespace Netlist

def simulator (netlist : Netlist) : Simulator where
  netlist
  context := ()
  state := List.replicate netlist.flipflops.length .unknown
  outputs := List.replicate netlist.outputs.length .unknown

end Netlist

namespace Simulator

def tick (inputs : List Level) (simulator : Simulator) : Tick Unit Level :=
  Circuit.tick .level inputs simulator

def debugText (simulator : Simulator) : String := Circuit.debugText Level.debugText simulator

end Simulator

inductive StackInstruction
  | push (values : List Level)
  | pop
  | operate (gate : Gate)
  deriving DecidableEq, Repr

namespace StackInstruction

/-- Carries out an instruction. A pop answers with the value taken; a gate that lacks operands
uses up those present. -/
def run : StackInstruction → List Level → Except EvalError (Option Level) × List Level
  | push values, stack => (.ok none, values.reverse ++ stack)
  | pop, top :: rest => (.ok (some top), rest)
  | pop, [] => (.error .stackUnderflow, [])
  | operate gate, stack =>
    match (Interpretation.level.operate gate stack ()).1 with
    | .ok stack => (.ok none, stack)
    | .error error => (.error error, [])

end StackInstruction

inductive VectorError
  | width (expected actual : Nat)
  | invalidBit (c : Char)
  deriving DecidableEq, Repr

namespace VectorError

def message : VectorError → String
  | width expected actual => s!"expected {expected} bits, got {actual}"
  | invalidBit c => "unexpected character " ++ Text.quoteChar c ++ ", inputs are `0` or `1`"

end VectorError

namespace Stimulus

def trimReturns (line : List Char) : List Char :=
  (line.reverse.dropWhile (· = '\r')).reverse

def readBit : Char → Except VectorError Level
  | '0' => .ok .low
  | '1' => .ok .high
  | c => .error (.invalidBit c)

def readBits : List Char → Except VectorError (List Level)
  | [] => return []
  | c :: rest => do
    let bit ← readBit c
    let bits ← readBits rest
    return bit :: bits

def readVector (width : Nat) (line : List Char) : Except VectorError (List Level) :=
  let bits := trimReturns line
  -- A wrong width is reported before a character that is no bit.
  if bits.length ≠ width then .error (.width width bits.length) else readBits bits

end Stimulus

inductive StimulusLine
  | text (line : List Char)
  | undecodable
  deriving DecidableEq, Repr

namespace StimulusLine

def ofText (text : String) : List StimulusLine := (Text.lines text.toList).map .text

def decode (bytes : List UInt8) : StimulusLine :=
  match String.fromUTF8? ⟨bytes.toArray⟩ with
  | some line => .text line.toList
  | none => .undecodable

def ofBytes (bytes : List UInt8) : List StimulusLine := (Text.linesBy 10 13 bytes).map decode

end StimulusLine

inductive SimulationError
  | invalidData
  | writeZero
  | invalidVector (line : Nat) (cause : VectorError)
  | evaluation (line : Nat) (cause : EvalError)
  deriving DecidableEq, Repr

namespace SimulationError

def message : SimulationError → String
  | invalidData => "stream did not contain valid UTF-8"
  | writeZero => "failed to write whole buffer"
  | invalidVector line cause => s!"Invalid input vector (line {line}): {cause.message}"
  | evaluation line cause => s!"Evaluation failed (line {line}): {cause.message}"

end SimulationError

structure Simulation where
  written : List Char
  begun : List Target
  result : Except SimulationError Nat

namespace Simulation

def outputLine (outputs : List Level) : List Char := outputs.map Level.toChar ++ ['\n']

def stop (error : SimulationError) : Simulation := ⟨[], [], .error error⟩

/-- The room that is left after writing `text`, if it fits. No limit is `none`. -/
def roomAfter (text : List Char) : Option Nat → Option (Option Nat)
  | none => some none
  | some room => if text.length ≤ room then some (some (room - text.length)) else none

/-- Runs the lines from number `line` on, after `line - 1` successful ticks. When a line of
outputs does not fit into the room, the part that fits is written. -/
def run (width : Nat) : Nat → List StimulusLine → Option Nat → Simulator → Simulation
  | line, [], _, _ => ⟨[], [], .ok (line - 1)⟩
  | _, .undecodable :: _, _, _ => stop .invalidData
  | line, .text vector :: rest, room, simulator =>
    match Stimulus.readVector width vector with
    | .error cause => stop (.invalidVector line cause)
    | .ok inputs =>
      let tick := Simulator.tick inputs simulator
      match tick.result with
      | .error cause => ⟨[], tick.begun, .error (.evaluation line cause)⟩
      | .ok () =>
        let text := outputLine tick.circuit.outputs
        match roomAfter text room with
        | none => ⟨text.take (room.getD 0), tick.begun, .error .writeZero⟩
        | some room =>
          let later := run width (line + 1) rest room tick.circuit
          ⟨text ++ later.written, tick.begun ++ later.begun, later.result⟩

end Simulation

namespace Netlist

def simulate (netlist : Netlist) (lines : List StimulusLine) (room : Option Nat) : Simulation :=
  Simulation.run netlist.inputs.length 1 lines room netlist.simulator

end Netlist

namespace Simulation

def log (simulation : Simulation) (header : Header) : List LogRecord :=
  header.evaluationLog simulation.begun ++
    match simulation.result with
    | .ok ticks => [⟨.debug, s!"simulated {ticks} ticks"⟩]
    | .error _ => []

end Simulation

end GateLevel
