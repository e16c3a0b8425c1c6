import GateLevel.Command.Program

/-! The command line: what the arguments ask for. -/

namespace GateLevel.Command

inductive Verb
  | simulate
  | analyze
  deriving DecidableEq, Repr

namespace Verb

def ofName? : String → Option Verb
  | "simulate" => some simulate
  | "analyze" => some analyze
  | _ => none

end Verb

inductive Key
  | config
  | vectors
  | output
  deriving DecidableEq, Repr

namespace Key

def ofName? (verb : Option Verb) (name : String) : Option Key :=
  match name, verb with
  | "config", _ => some config
  | "vectors", some .simulate => some vectors
  | "output", some .simulate => some output
  | _, _ => none

end Key

inductive Argument
  | separator
  | long (name : String) (value : Option String)
  | short (letters : List Char)
  | word (text : String)
  deriving DecidableEq, Repr

namespace Argument

def ofText (text : String) : Argument :=
  match text.toList with
  | ['-', '-'] => separator
  | '-' :: '-' :: rest =>
    let name := rest.takeWhile (· ≠ '=')
    match rest.dropWhile (· ≠ '=') with
    | _ :: value => long (String.ofList name) (some (String.ofList value))
    | [] => long (String.ofList name) none
  | '-' :: c :: rest => short (c :: rest)
  | _ => word text

def isWord : Argument → Bool
  | word _ => true
  | _ => false

end Argument

def readLetters : List Char → Option Bool
  | [] => some false
  | 'v' :: rest => readLetters rest
  | 'h' :: _ => some true
  | _ => none

structure Given where
  config : Option String
  vectors : Option String
  output : Option String
  circuit : Option String
  deriving DecidableEq, Repr

namespace Given

def nothing : Given := ⟨none, none, none, none⟩

def set (key : Key) (value : String) (given : Given) : Option Given :=
  if value.isEmpty then none
  else
    match key, given.config, given.vectors, given.output with
    | .config, none, _, _ => some { given with config := some value }
    | .vectors, _, none, _ => some { given with vectors := some value }
    | .output, _, _, none => some { given with output := some value }
    | _, _, _, _ => none

def setCircuit (value : String) (given : Given) : Option Given :=
  if value.isEmpty || given.circuit.isSome then none else some { given with circuit := some value }

def setCircuits : List String → Given → Option Given
  | [], given => some given
  | value :: rest, given => do setCircuits rest (← given.setCircuit value)

def action? (given : Given) : Verb → Option Action
  | .simulate => given.circuit.map fun circuit => .simulate circuit given.vectors given.output
  | .analyze => given.circuit.map .analyze

end Given

def readAction (verb : Verb) (outer : Option String) : List String → Given → Option Request
  | [], given => do
    let action ← given.action? verb
    return .run (given.config <|> outer) action
  | text :: rest, given =>
    match Argument.ofText text with
    | .separator => do
      let given ← given.setCircuits rest
      let action ← given.action? verb
      return .run (given.config <|> outer) action
    | .long "help" none => some .help
    | .long "verbose" none => readAction verb outer rest given
    | .long name (some value) => do
      let key ← Key.ofName? (some verb) name
      readAction verb outer rest (← given.set key value)
    | .long name none => do
      let key ← Key.ofName? (some verb) name
      match rest with
      | value :: rest =>
        if (Argument.ofText value).isWord then do
          readAction verb outer rest (← given.set key value)
        else none
      | [] => none
    | .short letters => do
      if ← readLetters letters then return .help else readAction verb outer rest given
    | .word circuit => do readAction verb outer rest (← given.setCircuit circuit)

def readHelp : List String → Option Request
  | [] => some .help
  | [topic] => if topic = "help" || (Verb.ofName? topic).isSome then some .help else none
  | _ => none

/-- Reads what comes after a faulty value given before the verb. The fault counts, unless a verb
comes next and help is asked for behind it. -/
def readBehindFault : List String → Option Request
  | [] => none
  | word :: rest =>
    if word = "help" then readHelp rest
    else do
      match ← readAction (← Verb.ofName? word) none rest .nothing with
      | .help => some .help
      | .run _ _ => none

def readArguments : List String → Given → Option Request
  | [], _ => none
  | text :: rest, given =>
    match Argument.ofText text with
    | .separator => none
    | .long "help" none => some .help
    | .long "verbose" none => readArguments rest given
    | .long name (some value) => do
      let key ← Key.ofName? none name
      readArguments rest (← given.set key value)
    | .long name none => do
      let key ← Key.ofName? none name
      match rest with
      | value :: rest =>
        if (Argument.ofText value).isWord then
          match given.set key value with
          | some given => readArguments rest given
          | none => readBehindFault rest
        else none
      | [] => none
    | .short letters => do
      if ← readLetters letters then return .help else readArguments rest given
    | .word "help" => readHelp rest
    | .word word => do readAction (← Verb.ofName? word) given.config rest .nothing

namespace Request

def ofArguments (arguments : List String) : Option Request := readArguments arguments .nothing

end Request

def usage : String :=
  "Simulate and analyze single-bit gate-level circuits\n\n" ++
  "Usage: gatesim [OPTIONS] <COMMAND>\n\n" ++
  "Commands:\n" ++
  "  simulate [--vectors FILE] [--output FILE] CIRCUIT\n" ++
  "           Run one clock tick per input vector and print the outputs\n" ++
  "  analyze CIRCUIT\n" ++
  "           Print the extremal paths and the logic cone of every output\n" ++
  "  help     Print this message\n\n" ++
  "Options:\n" ++
  "  -v, --verbose   Accepted any number of times\n" ++
  "  --config FILE   Configuration file (defaults to ./gatesim.toml when present)\n" ++
  "  -h, --help      Print this message\n"

end GateLevel.Command
