import GateLevel.Schedule

/-! Turns a declaration into a netlist, whose assignments can be evaluated one after the other. -/

namespace GateLevel

structure Netlist extends Header where
  assignments : List Assignment
  deriving DecidableEq, Repr

inductive DeclarationError
  | duplicateDeclaration (name : String)
  | duplicateAssignment (name : String)
  | unknownReference (signal : Signal)
  | unassignedOutput (name : String)
  | emptyExpression (name : String)
  | flipflopInCombinational
  | combinationalLoop (targets : List Target)
  deriving DecidableEq, Repr

namespace DeclarationError

def message : DeclarationError → String
  | duplicateDeclaration name => s!"`{name}` was already declared"
  | duplicateAssignment name => s!"`{name}` is assigned more than once"
  | unknownReference signal => s!"reference to undeclared {signal.describe}"
  | unassignedOutput name => s!"output `{name}` is never assigned"
  | emptyExpression name => s!"the expression assigned to `{name}` is empty"
  | flipflopInCombinational => "flip-flop found in a combinational (unclocked) module"
  | combinationalLoop targets => combinationalLoopMessage targets

end DeclarationError

def firstRepeated? {α : Type} [BEq α] (seen : List α) : List α → Option α
  | [] => none
  | x :: rest => if seen.contains x then some x else firstRepeated? (x :: seen) rest

namespace Header

def check (header : Header) : Except DeclarationError Unit :=
  if !header.clocked && !header.flipflops.isEmpty then
    .error .flipflopInCombinational
  else
    match firstRepeated? [] (header.inputs ++ header.outputs) with
    | some name => .error (.duplicateDeclaration name)
    | none =>
      match firstRepeated? [] header.flipflops with
      | some number => .error (.duplicateDeclaration (flipflopName number))
      | none => .ok ()

def firstUndeclared? (header : Header) (operands : List Signal) : Option Signal :=
  operands.find? fun signal => (header.signalName? signal).isNone

def checkAssignment (header : Header) (earlier : List Target) (assignment : Assignment) :
    Except DeclarationError Unit :=
  match header.signalName? assignment.target.signal with
  | none => .error (.unknownReference assignment.target.signal)
  | some name =>
    if earlier.contains assignment.target then .error (.duplicateAssignment name)
    else if assignment.expression.isEmpty then .error (.emptyExpression name)
    else
      match header.firstUndeclared? assignment.operands with
      | some signal => .error (.unknownReference signal)
      | none => .ok ()

def checkAssignments (header : Header) :
    List Target → List Assignment → Except DeclarationError Unit
  | _, [] => .ok ()
  | earlier, assignment :: rest => do
    header.checkAssignment earlier assignment
    header.checkAssignments (assignment.target :: earlier) rest

end Header

namespace Declaration

def drives (declaration : Declaration) (target : Target) : Bool :=
  declaration.assignments.any (·.target = target)

def firstUnassigned? (declaration : Declaration) : Option String :=
  (declaration.outputs.zipIdx.find? fun (_, index) => !declaration.drives (.output index)).map
    (·.1)

def check (declaration : Declaration) : Except DeclarationError Unit := do
  declaration.toHeader.check
  declaration.toHeader.checkAssignments [] declaration.assignments
  match declaration.firstUnassigned? with
  | some name => .error (.unassignedOutput name)
  | none => .ok ()

def schedule (declaration : Declaration) : Schedule :=
  .plan declaration.inputs.length declaration.flipflops.length declaration.assignments

def resolve (declaration : Declaration) : Except DeclarationError Netlist := do
  declaration.check
  match declaration.schedule.result with
  | .error targets => .error (.combinationalLoop targets)
  | .ok assignments => .ok ⟨declaration.toHeader, assignments⟩

def log (declaration : Declaration) : List LogRecord :=
  match declaration.check with
  | .error _ => []
  | .ok () => declaration.schedule.log

end Declaration

end GateLevel
