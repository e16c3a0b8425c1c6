import GateLevel.Source.Reader

/-! A machine that reads declarations word by word: lists of pins and expressions have states of
their own, which the end of a line leaves, and names are found through maps. -/

namespace GateLevel.Source

structure Arranger where
  output : List Item
  pending : List Pending
  deriving DecidableEq, Repr

namespace Arranger

def empty : Arranger := ⟨[], []⟩

def flush (output : List Item) : List Pending → Arranger
  | .gate kind :: below => flush (output ++ [.gate kind]) below
  | pending => ⟨output, pending⟩

def close (output : List Item) : List Pending → Except Fault Arranger
  | .gate kind :: below => close (output ++ [.gate kind]) below
  | .opening :: below => .ok ⟨output, below⟩
  | [] => .error .mismatchedParentheses

def push (pending : Pending) (arranger : Arranger) : Arranger :=
  { arranger with pending := pending :: arranger.pending }

def takeAtom (word : List Char) (arranger : Arranger) : Except Fault Arranger :=
  if word = ['('] then .ok (arranger.push .opening)
  else if word = [')'] then close arranger.output arranger.pending
  else
    match Gate.ofMnemonic? (String.ofList word) with
    | some .not => .ok (arranger.push (.gate .not))
    | some (.binary gate) =>
      .ok ((flush arranger.output arranger.pending).push (.gate (.binary gate)))
    | none => .ok { arranger with output := arranger.output ++ [.operand word] }

def take (word : List Char) (arranger : Arranger) : Except Fault Arranger :=
  if word.length ≤ 1 then arranger.takeAtom word
  else if word.head? = some '(' then do
    take word.tail (← arranger.takeAtom ['('])
  else if word.getLast? = some ')' then do
    (← take word.dropLast arranger).takeAtom [')']
  else arranger.takeAtom word
termination_by word.length
decreasing_by all_goals simp; omega

def finish (output : List Item) : List Pending → Except Fault (List Item)
  | .gate kind :: below => finish (output ++ [.gate kind]) below
  | .opening :: _ => .error .mismatchedParentheses
  | [] => .ok output

end Arranger

namespace Machine

inductive State
  | idle
  | moduleName
  | parameters
  | inputs
  | outputs
  | body
  | assignTarget
  | equals (target : Target)
  | expression (target : Target) (arranger : Arranger)
  deriving DecidableEq, Repr

end Machine

/-- The state of the machine, what it has declared, and where it has put what has a name. -/
structure Machine where
  state : Machine.State
  declaration : Declaration
  inputs : List (String × Nat)
  outputs : List (String × Nat)
  flipflops : List (UInt16 × Nat)
  deriving DecidableEq, Repr

namespace Machine

def start : Machine := ⟨.idle, .empty, [], [], []⟩

def enter (state : State) (machine : Machine) : Machine := { machine with state }

def knows (name : String) (machine : Machine) : Bool :=
  (machine.inputs.lookup name).isSome || (machine.outputs.lookup name).isSome

def addPin (direction : Direction) (name : String) (machine : Machine) : Machine :=
  let declaration := machine.declaration
  match direction with
  | .input =>
    { machine with
      inputs := (name, declaration.inputs.length) :: machine.inputs
      declaration := { declaration with inputs := declaration.inputs ++ [name] } }
  | .output =>
    { machine with
      outputs := (name, declaration.outputs.length) :: machine.outputs
      declaration := { declaration with outputs := declaration.outputs ++ [name] } }

def declarePin (direction : Direction) (word : List Char) (machine : Machine) :
    Except Fault Machine :=
  let name := String.ofList (Words.dropTrailing ',' word)
  if name.isEmpty then .ok machine
  else if machine.knows name then .error (.duplicateDeclaration name)
  else .ok (machine.addPin direction name)

def slot (number : UInt16) (machine : Machine) : Nat × Machine :=
  match machine.flipflops.lookup number with
  | some slot => (slot, machine)
  | none =>
    let declaration := machine.declaration
    let slot := declaration.flipflops.length
    (slot,
      { machine with
        flipflops := (number, slot) :: machine.flipflops
        declaration := { declaration with flipflops := declaration.flipflops ++ [number] } })

def mention (number : UInt16) (machine : Machine) : Except Fault (Nat × Machine) :=
  if machine.declaration.clocked then .ok (machine.slot number)
  else .error .flipflopInCombinational

def resolveOperand (word : List Char) (machine : Machine) : Except Fault (Signal × Machine) := do
  match ← flipflopNumber? word with
  | some number =>
    let (slot, machine) ← machine.mention number
    return (.flipflop slot, machine)
  | none =>
    let name := String.ofList word
    match machine.inputs.lookup name with
    | some index => return (.input index, machine)
    | none =>
      match machine.outputs.lookup name with
      | some index => return (.output index, machine)
      | none => throw (.unknownVariable name)

def compile : List Item → Machine → Except Fault (List Token × Machine)
  | [], machine => return ([], machine)
  | .gate gate :: rest, machine => do
    let (tokens, machine) ← compile rest machine
    return (.gate gate :: tokens, machine)
  | .operand word :: rest, machine => do
    let (signal, machine) ← machine.resolveOperand word
    let (tokens, machine) ← compile rest machine
    return (.signal signal :: tokens, machine)

def takeParameter (word : List Char) (machine : Machine) : Except Fault Machine :=
  if word = [] then .ok machine
  else if word = "clk".toList then
    .ok { machine with declaration := { machine.declaration with clocked := true } }
  else if word = "input".toList then .ok (machine.enter .inputs)
  else if word = "output".toList then .ok (machine.enter .outputs)
  else if word = ");".toList then .ok (machine.enter .body)
  else .error (.unexpectedToken (String.ofList word))

def takeBodyWord (word : List Char) (machine : Machine) : Except Fault Machine := do
  if word = "endmodule".toList then return machine.enter .idle
  else if word = "assign".toList then return machine.enter .assignTarget
  else
    match ← flipflopNumber? word with
    | some number =>
      let (slot, machine) ← machine.mention number
      return machine.enter (.equals (.flipflop slot))
    | none => throw (.unexpectedToken (String.ofList word))

def take (word : List Char) (machine : Machine) : Except Fault Machine :=
  match machine.state with
  | .idle =>
    if word = "module".toList then .ok (machine.enter .moduleName)
    else .error (.unexpectedToken (String.ofList word))
  | .moduleName =>
    let name := String.ofList (Words.dropTrailing '(' word)
    .ok { machine with state := .parameters, declaration := { machine.declaration with name } }
  | .parameters => machine.takeParameter (Words.dropOpening word)
  | .inputs => machine.declarePin .input word
  | .outputs => machine.declarePin .output word
  | .body => machine.takeBodyWord word
  | .assignTarget =>
    match machine.outputs.lookup (String.ofList word) with
    | some index => .ok (machine.enter (.equals (.output index)))
    | none => .error (.unknownOutput (String.ofList word))
  | .equals target =>
    if word = ['='] then .ok (machine.enter (.expression target .empty))
    else .error (.unexpectedToken (String.ofList word))
  | .expression target arranger => do
    return machine.enter (.expression target (← arranger.take word))

def endLine (machine : Machine) : Except Fault Machine :=
  match machine.state with
  | .inputs | .outputs => .ok (machine.enter .parameters)
  | .expression target arranger => do
    let items ← Arranger.finish arranger.output arranger.pending
    let (expression, machine) ← machine.compile items
    let declaration := machine.declaration
    let assignments := declaration.assignments ++ [⟨target, expression⟩]
    return { machine with state := .body, declaration := { declaration with assignments } }
  | _ => .ok machine

def readWords (words : List (List Char)) (machine : Machine) : Except Fault Machine := do
  (← words.foldlM (fun machine word => machine.take word) machine).endLine

def readLine (line : List Char) (machine : Machine) : Except Fault Machine :=
  if isComment line then .ok machine else machine.readWords (Text.words line)

def readLines : Nat → List (List Char) → Machine → Except ReadError Machine
  | _, [], machine => .ok machine
  | number, line :: rest, machine =>
    match machine.readLine line with
    | .error cause => .error (.fault number cause)
    | .ok machine => readLines (number + 1) rest machine

def finish (machine : Machine) : Except ReadError Declaration :=
  match machine.state with
  | .idle => .ok machine.declaration
  | _ => .error .unexpectedEnd

def readDeclaration (text : String) : Except ReadError Declaration := do
  (← readLines 1 (Text.lines text.toList) start).finish

end Machine

end GateLevel.Source
