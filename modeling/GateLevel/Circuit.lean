import GateLevel.Evaluation
import GateLevel.Netlist
import GateLevel.Text

/-! Clocked circuits: a netlist together with the values of its flip-flops and outputs. -/

namespace GateLevel

structure Circuit (σ V : Type) where
  netlist : Netlist
  context : σ
  state : List V
  outputs : List V

structure Settling (σ V : Type) where
  outputs : List (Option V)
  next : List V
  context : σ

namespace Settling

variable {σ V : Type}

def store (settling : Settling σ V) (target : Target) (value : V) : Option (Settling σ V) :=
  match target with
  | .output index =>
    if index < settling.outputs.length then
      some { settling with outputs := settling.outputs.set index (some value) }
    else none
  | .flipflop index =>
    if index < settling.next.length then
      some { settling with next := settling.next.set index value }
    else none

def assign (meaning : Interpretation σ V) (inputs state : List V) (assignment : Assignment)
    (settling : Settling σ V) : Except EvalError Unit × Settling σ V :=
  match meaning.evaluate ⟨inputs, state, settling.outputs⟩ assignment.expression
      settling.context with
  | (.error error, context) => (.error error, { settling with context })
  | (.ok value, context) =>
    match { settling with context }.store assignment.target value with
    | none => (.error (.unknownTarget assignment.target), { settling with context })
    | some settling => (.ok (), settling)

/-- Evaluates assignments in order, up to the first failure. The last component lists the
targets whose evaluation was begun. -/
def run (meaning : Interpretation σ V) (inputs state : List V) :
    List Assignment → Settling σ V → Except EvalError Unit × Settling σ V × List Target
  | [], settling => (.ok (), settling, [])
  | assignment :: rest, settling =>
    match settling.assign meaning inputs state assignment with
    | (.error error, settling) => (.error error, settling, [assignment.target])
    | (.ok (), settling) =>
      let (result, settling, begun) := run meaning inputs state rest settling
      (result, settling, assignment.target :: begun)

def drivenFrom (position : Nat) : List (Option V) → Except EvalError (List V)
  | [] => .ok []
  | none :: _ => .error (.unassignedOutput position)
  | some value :: rest => do
    let values ← drivenFrom (position + 1) rest
    return value :: values

end Settling

structure Tick (σ V : Type) where
  circuit : Circuit σ V
  begun : List Target
  result : Except EvalError Unit

namespace Circuit

variable {σ V : Type}

def tick (meaning : Interpretation σ V) (inputs : List V) (circuit : Circuit σ V) : Tick σ V :=
  if inputs.length ≠ circuit.netlist.inputs.length then
    ⟨circuit, [], .error (.sizeMismatch circuit.netlist.inputs.length inputs.length)⟩
  else
    let start : Settling σ V :=
      ⟨List.replicate circuit.netlist.outputs.length none, circuit.state, circuit.context⟩
    -- Flip-flops are read from the state before the tick, so that all of them change at once.
    let (result, settling, begun) :=
      start.run meaning inputs circuit.state circuit.netlist.assignments
    let failed : Circuit σ V := { circuit with context := settling.context }
    match result with
    | .error error => ⟨failed, begun, .error error⟩
    | .ok () =>
      match Settling.drivenFrom 0 settling.outputs with
      | .error error => ⟨failed, begun, .error error⟩
      | .ok outputs =>
        ⟨{ failed with state := settling.next, outputs }, begun, .ok ()⟩

def debugText (valueText : V → String) (circuit : Circuit σ V) : String :=
  let values := fun list : List V => "[" ++ ", ".intercalate (list.map valueText) ++ "]"
  "Circuit \x7b module: " ++ Text.quoteString circuit.netlist.name ++
    ", state: " ++ values circuit.state ++ ", outputs: " ++ values circuit.outputs ++ " \x7d"

end Circuit

namespace Header

def evaluationRecord? (header : Header) (target : Target) : Option LogRecord :=
  (header.signalName? target.signal).map fun name => ⟨.trace, s!"evaluating {name}"⟩

def evaluationLog (header : Header) (begun : List Target) : List LogRecord :=
  begun.filterMap header.evaluationRecord?

end Header

end GateLevel
