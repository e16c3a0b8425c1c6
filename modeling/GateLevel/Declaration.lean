import GateLevel.Gate

/-! Signals of a module, the tokens and assignments written with them, what a module declares, and
log records. -/

namespace GateLevel

inductive Signal
  | input (index : Nat)
  | output (index : Nat)
  | flipflop (index : Nat)
  deriving DecidableEq, Repr

inductive Target
  | output (index : Nat)
  | flipflop (index : Nat)
  deriving DecidableEq, Repr

inductive Token
  | gate (kind : Gate)
  | signal (source : Signal)
  deriving DecidableEq, Repr

structure Assignment where
  target : Target
  expression : List Token
  deriving DecidableEq, Repr

namespace Signal

def describe : Signal → String
  | input index => s!"input #{index}"
  | output index => s!"output #{index}"
  | flipflop index => s!"flip-flop #{index}"

end Signal

namespace Target

def signal : Target → Signal
  | output index => .output index
  | flipflop index => .flipflop index

theorem signal_injective {first second : Target} (same : first.signal = second.signal) :
    first = second := by
  cases first <;> cases second <;> simp_all [signal]

def describe (target : Target) : String := target.signal.describe

def precedes : Target → Target → Bool
  | output first, output second => first ≤ second
  | output _, flipflop _ => true
  | flipflop _, output _ => false
  | flipflop first, flipflop second => first ≤ second

end Target

namespace Token

def describe : Token → String
  | gate kind => kind.mnemonic
  | signal source => source.describe

def signal? : Token → Option Signal
  | gate _ => none
  | signal source => some source

end Token

namespace Assignment

def operands (assignment : Assignment) : List Signal :=
  assignment.expression.filterMap Token.signal?

end Assignment

/-- The signals of a module. A signal is known by its position in the list of its kind;
a flip-flop is called `FF` followed by its number. -/
structure Header where
  name : String
  clocked : Bool
  inputs : List String
  flipflops : List UInt16
  outputs : List String
  deriving DecidableEq, Repr

structure Declaration extends Header where
  assignments : List Assignment
  deriving DecidableEq, Repr

def flipflopName (number : UInt16) : String := s!"FF{number.toNat}"

namespace Header

def signalName? (header : Header) : Signal → Option String
  | .input index => header.inputs[index]?
  | .output index => header.outputs[index]?
  | .flipflop index => header.flipflops[index]?.map flipflopName

def tokenName? (header : Header) : Token → Option String
  | .gate gate => some gate.mnemonic
  | .signal signal => header.signalName? signal

def Declares (header : Header) : Signal → Prop
  | .input index => index < header.inputs.length
  | .output index => index < header.outputs.length
  | .flipflop index => index < header.flipflops.length

theorem signalName?_isSome_iff (header : Header) (signal : Signal) :
    (header.signalName? signal).isSome ↔ header.Declares signal := by
  cases signal <;> simp [signalName?, Declares]

end Header

namespace Declaration

def empty : Declaration := ⟨⟨"", false, [], [], []⟩, []⟩

end Declaration

inductive Severity
  | trace
  | debug
  deriving DecidableEq, Repr

namespace Severity

def name : Severity → String
  | trace => "trace"
  | debug => "debug"

end Severity

structure LogRecord where
  severity : Severity
  message : String
  deriving DecidableEq, Repr

end GateLevel
