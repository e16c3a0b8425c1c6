import GateLevel.Declaration

/-! Evaluates expressions in reverse Polish order, over any meaning of the gates. -/

namespace GateLevel

/-- What the gates do to values in `V`. They may use and change a context shared by all
evaluations. The operand written last is passed first. -/
structure Interpretation (σ V : Type) where
  invert : V → σ → V × σ
  combine : BinaryGate → V → V → σ → V × σ

inductive EvalError
  | sizeMismatch (expected actual : Nat)
  | stackUnderflow
  | stackNotSingleton (size : Nat)
  | unassignedOutput (index : Nat)
  | unknownReference (signal : Signal)
  | unknownTarget (target : Target)
  deriving DecidableEq, Repr

namespace EvalError

def message : EvalError → String
  | sizeMismatch expected actual =>
    s!"Input size mismatch: expected {expected} values, got {actual}"
  | stackUnderflow => "The operand stack is empty"
  | stackNotSingleton size => s!"The operand stack contains {size} items instead of one"
  | unassignedOutput index => s!"Output #{index} was read before being assigned"
  | unknownReference signal => s!"Reference to undeclared {signal.describe}"
  | unknownTarget target => s!"Assignment to undeclared {target.describe}"

end EvalError

/-- The values that an expression can read. An output has none before it is driven. -/
structure Scope (V : Type) where
  inputs : List V
  state : List V
  outputs : List (Option V)

namespace Scope

variable {V : Type}

def read (scope : Scope V) : Signal → Except EvalError V
  | .input index =>
    match scope.inputs[index]? with
    | some value => .ok value
    | none => .error (.unknownReference (.input index))
  | .flipflop index =>
    match scope.state[index]? with
    | some value => .ok value
    | none => .error (.unknownReference (.flipflop index))
  | .output index =>
    match scope.outputs[index]? with
    | some (some value) => .ok value
    | some none => .error (.unassignedOutput index)
    | none => .error (.unknownReference (.output index))

end Scope

namespace Interpretation

variable {σ V : Type}

def operate (meaning : Interpretation σ V) :
    Gate → List V → σ → Except EvalError (List V) × σ
  | .not, operand :: rest, context =>
    let (value, context) := meaning.invert operand context
    (.ok (value :: rest), context)
  | .binary gate, last :: first :: rest, context =>
    let (value, context) := meaning.combine gate last first context
    (.ok (value :: rest), context)
  | _, _, context => (.error .stackUnderflow, context)

def execute (meaning : Interpretation σ V) (scope : Scope V) :
    List Token → List V → σ → Except EvalError (List V) × σ
  | [], stack, context => (.ok stack, context)
  | .signal signal :: rest, stack, context =>
    match scope.read signal with
    | .error error => (.error error, context)
    | .ok value => execute meaning scope rest (value :: stack) context
  | .gate gate :: rest, stack, context =>
    match meaning.operate gate stack context with
    | (.error error, context) => (.error error, context)
    | (.ok stack, context) => execute meaning scope rest stack context

def single : List V → Except EvalError V
  | [] => .error .stackUnderflow
  | [value] => .ok value
  | stack => .error (.stackNotSingleton stack.length)

def evaluate (meaning : Interpretation σ V) (scope : Scope V) (expression : List Token)
    (context : σ) : Except EvalError V × σ :=
  match meaning.execute scope expression [] context with
  | (.error error, context) => (.error error, context)
  | (.ok stack, context) => (single stack, context)

end Interpretation

end GateLevel
