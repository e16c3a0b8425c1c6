import GateLevel.Netlist
import GateLevel.Source.Expression
import GateLevel.Text

/-! Reads declarations from circuit text, line by line and word by word. -/

namespace GateLevel.Source

inductive Fault
  | unexpectedToken (word : String)
  | duplicateDeclaration (name : String)
  | unknownOutput (name : String)
  | unknownVariable (name : String)
  | invalidFlipflop (name : String)
  | flipflopInCombinational
  | mismatchedParentheses
  deriving DecidableEq, Repr

namespace Fault

def message : Fault → String
  | unexpectedToken word => "Unexpected token: \"" ++ word ++ "\""
  | duplicateDeclaration name => s!"`{name}` was already declared"
  | unknownOutput name => s!"No such output: {name}"
  | unknownVariable name => s!"No such variable: {name}"
  | invalidFlipflop name => s!"Invalid flip-flop name: {name}"
  | flipflopInCombinational => "Flip-flop found in asynchronous circuit"
  | mismatchedParentheses => "Mismatched parentheses"

end Fault

inductive ReadError
  | fault (line : Nat) (cause : Fault)
  | unexpectedEnd
  | refused (cause : DeclarationError)
  deriving DecidableEq, Repr

namespace ReadError

def message : ReadError → String
  | fault line cause => s!"{cause.message} [line {line}]"
  | unexpectedEnd => "Parsing ended prematurely"
  | refused cause => cause.message

end ReadError

inductive Phase
  | outside
  | name
  | pins
  | body
  | target
  | equals (target : Target)
  deriving DecidableEq, Repr

structure Reader where
  phase : Phase
  declaration : Declaration
  deriving DecidableEq, Repr

def flipflopDigits? : List Char → Option (List Char)
  | 'F' :: 'F' :: digits => if !digits.isEmpty && digits.all Char.isDigit then some digits else none
  | _ => none

def decimalValue (digits : List Char) : Nat :=
  digits.foldl (fun value digit => 10 * value + (digit.toNat - '0'.toNat)) 0

/-- The number of the flip-flop that a word names; `none` for a word that names none. Numbers
have sixteen bits. -/
def flipflopNumber? (word : List Char) : Except Fault (Option UInt16) :=
  match flipflopDigits? word with
  | none => .ok none
  | some digits =>
    if decimalValue digits < 65536 then .ok (some (UInt16.ofNat (decimalValue digits)))
    else .error (.invalidFlipflop (String.ofList word))

namespace Words

def dropTrailing (c : Char) (word : List Char) : List Char :=
  (word.reverse.dropWhile (· = c)).reverse

def dropOpening : List Char → List Char
  | '(' :: rest => rest
  | word => word

end Words

def declareFlipflop (number : UInt16) (declaration : Declaration) : Nat × Declaration :=
  match declaration.flipflops.idxOf? number with
  | some index => (index, declaration)
  | none =>
    (declaration.flipflops.length,
      { declaration with flipflops := declaration.flipflops ++ [number] })

def mentionFlipflop (number : UInt16) (declaration : Declaration) :
    Except Fault (Nat × Declaration) :=
  if declaration.clocked then .ok (declareFlipflop number declaration)
  else .error .flipflopInCombinational

def resolveOperand (word : List Char) (declaration : Declaration) :
    Except Fault (Signal × Declaration) := do
  match ← flipflopNumber? word with
  | some number =>
    let (index, declaration) ← mentionFlipflop number declaration
    return (.flipflop index, declaration)
  | none =>
    let name := String.ofList word
    match declaration.inputs.idxOf? name with
    | some index => return (.input index, declaration)
    | none =>
      match declaration.outputs.idxOf? name with
      | some index => return (.output index, declaration)
      | none => throw (.unknownVariable name)

def resolveItems : List Item → Declaration → Except Fault (List Token × Declaration)
  | [], declaration => return ([], declaration)
  | .gate gate :: rest, declaration => do
    let (tokens, declaration) ← resolveItems rest declaration
    return (.gate gate :: tokens, declaration)
  | .operand word :: rest, declaration => do
    let (signal, declaration) ← resolveOperand word declaration
    let (tokens, declaration) ← resolveItems rest declaration
    return (.signal signal :: tokens, declaration)

def addAssignment (target : Target) (words : List (List Char)) (declaration : Declaration) :
    Except Fault Declaration := do
  match itemsOfWords words with
  | none => throw .mismatchedParentheses
  | some items =>
    let (expression, declaration) ← resolveItems items declaration
    return { declaration with
      assignments := declaration.assignments ++ [⟨target, expression⟩] }

inductive Direction
  | input
  | output
  deriving DecidableEq, Repr

def declarePin (direction : Direction) (word : List Char) (declaration : Declaration) :
    Except Fault Declaration :=
  let name := String.ofList (Words.dropTrailing ',' word)
  if name.isEmpty then .ok declaration
  else if declaration.inputs.contains name || declaration.outputs.contains name then
    .error (.duplicateDeclaration name)
  else
    match direction with
    | .input => .ok { declaration with inputs := declaration.inputs ++ [name] }
    | .output => .ok { declaration with outputs := declaration.outputs ++ [name] }

def declarePins (direction : Direction) :
    List (List Char) → Declaration → Except Fault Declaration
  | [], declaration => return declaration
  | word :: rest, declaration => do
    declarePins direction rest (← declarePin direction word declaration)

def readBodyWord (word : List Char) (declaration : Declaration) : Except Fault Reader := do
  if word = "endmodule".toList then return ⟨.outside, declaration⟩
  else if word = "assign".toList then return ⟨.target, declaration⟩
  else
    match ← flipflopNumber? word with
    | some number =>
      let (index, declaration) ← mentionFlipflop number declaration
      return ⟨.equals (.flipflop index), declaration⟩
    | none => throw (.unexpectedToken (String.ofList word))

/-- Reads the words of a line from the given phase on. A list of pins and an expression both
run to the end of the line. -/
def readWords : List (List Char) → Phase → Declaration → Except Fault Reader
  | [], phase, declaration => return ⟨phase, declaration⟩
  | word :: rest, .outside, declaration =>
    if word = "module".toList then readWords rest .name declaration
    else throw (.unexpectedToken (String.ofList word))
  | word :: rest, .name, declaration =>
    readWords rest .pins
      { declaration with name := String.ofList (Words.dropTrailing '(' word) }
  | word :: rest, .pins, declaration =>
    let word := Words.dropOpening word
    if word = [] then readWords rest .pins declaration
    else if word = "clk".toList then readWords rest .pins { declaration with clocked := true }
    else if word = "input".toList then do
      return ⟨.pins, ← declarePins .input rest declaration⟩
    else if word = "output".toList then do
      return ⟨.pins, ← declarePins .output rest declaration⟩
    else if word = ");".toList then readWords rest .body declaration
    else throw (.unexpectedToken (String.ofList word))
  | word :: rest, .body, declaration => do
    let ⟨phase, declaration⟩ ← readBodyWord word declaration
    readWords rest phase declaration
  | word :: rest, .target, declaration =>
    match declaration.outputs.idxOf? (String.ofList word) with
    | some index => readWords rest (.equals (.output index)) declaration
    | none => throw (.unknownOutput (String.ofList word))
  | word :: rest, .equals target, declaration =>
    if word = ['='] then do
      return ⟨.body, ← addAssignment target rest declaration⟩
    else throw (.unexpectedToken (String.ofList word))

def isComment (line : List Char) : Bool :=
  ['/', '/'].isPrefixOf (line.dropWhile Text.isBlank)

namespace Reader

def start : Reader := ⟨.outside, .empty⟩

def readLine (line : List Char) (reader : Reader) : Except Fault Reader :=
  if isComment line then .ok reader
  else readWords (Text.words line) reader.phase reader.declaration

def readLines : Nat → List (List Char) → Reader → Except ReadError Reader
  | _, [], reader => .ok reader
  | number, line :: rest, reader =>
    match reader.readLine line with
    | .error cause => .error (.fault number cause)
    | .ok reader => readLines (number + 1) rest reader

def finish (reader : Reader) : Except ReadError Declaration :=
  match reader.phase with
  | .outside => .ok reader.declaration
  | _ => .error .unexpectedEnd

end Reader

def readDeclaration (text : String) : Except ReadError Declaration := do
  (← Reader.readLines 1 (Text.lines text.toList) .start).finish

def readNetlist (text : String) : Except ReadError Netlist := do
  let declaration ← readDeclaration text
  match declaration.resolve with
  | .error cause => throw (.refused cause)
  | .ok netlist => return netlist

end GateLevel.Source
