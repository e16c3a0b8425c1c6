import GateLevel.Graph.Analysis
import GateLevel.Simulation
import GateLevel.Source.Reader

/-! The command, over any file system, and for any way to read arguments and settings. -/

namespace GateLevel

structure Settings where
  vectors : String
  output : Option String
  deriving DecidableEq, Repr

namespace Settings

def standard : Settings := ⟨"input/vectors.txt", none⟩

structure Partial where
  vectors : Option String
  output : Option String
  deriving DecidableEq, Repr

def Partial.complete (settings : Partial) : Settings :=
  ⟨settings.vectors.getD standard.vectors, settings.output⟩

end Settings

namespace Command

inductive Action
  | simulate (circuit : String) (vectors output : Option String)
  | analyze (circuit : String)
  deriving DecidableEq, Repr

inductive Request
  | help
  | run (settings : Option String) (action : Action)
  deriving DecidableEq, Repr

/-- What is made of arguments and of settings files; `none` stands for a mistake. -/
structure Readers where
  usage : String
  request? : List String → Option Request
  settings? : String → Option Settings.Partial

inductive FileError
  | notFound
  | notDirectory
  | isDirectory
  | nameTooLong
  | undecodable
  | invalidName
  | other (code : Nat) (text : String)
  deriving DecidableEq, Repr

namespace FileError

def message : FileError → String
  | notFound => "No such file or directory (os error 2)"
  | notDirectory => "Not a directory (os error 20)"
  | isDirectory => "Is a directory (os error 21)"
  | nameTooLong => "File name too long (os error 36)"
  | undecodable => "stream did not contain valid UTF-8"
  | invalidName => "file name contained an unexpected NUL byte"
  | other code text => text ++ s!" (os error {code})"

end FileError

structure Reading where
  bytes : ByteArray
  fault : Option FileError

namespace Reading

/-- A line that a fault has cut off is lost. -/
def lines (reading : Reading) : List StimulusLine :=
  match reading.fault with
  | none => StimulusLine.ofBytes reading.bytes.toList
  | some _ => StimulusLine.ofBytes (reading.bytes.toList.reverse.dropWhile (· ≠ 10)).reverse

end Reading

/-- What the command does with files and with its standard output. Creating a file makes it empty
if it is there. -/
structure FileSystem (m : Type → Type) (Handle : Type) where
  isFile : String → m Bool
  openFile : String → m (Except FileError Handle)
  createFile : String → m (Except FileError Handle)
  readAll : Handle → m Reading
  writeAll : Handle → ByteArray → m Unit
  display : String → m Unit

inductive Failure
  | unreadable (file : String) (cause : FileError)
  | invalidSettings (file : String)
  | invalidCircuit (file : String) (cause : Source.ReadError)
  | unopened (file : String) (cause : FileError)
  | uncreated (file : String) (cause : FileError)
  | interrupted (file : String) (cause : FileError)
  | simulation (file : String) (cause : SimulationError)
  | analysis (cause : AnalysisError)
  | unnamedSignal
  deriving DecidableEq, Repr

namespace Failure

def message : Failure → String
  | unreadable file cause => s!"cannot read {file}: {cause.message}"
  | invalidSettings file => s!"{file}: invalid configuration"
  | invalidCircuit file cause => s!"{file}: {cause.message}"
  | unopened file cause => s!"cannot open {file}: {cause.message}"
  | uncreated file cause => s!"cannot create {file}: {cause.message}"
  | interrupted file cause => s!"{file}: {cause.message}"
  | simulation file cause => s!"{file}: {cause.message}"
  | analysis cause => cause.message
  | unnamedSignal => "a signal has no name"

end Failure

def standardSettingsFile : String := "gatesim.toml"

section

variable {m : Type → Type} [Monad m] {Handle : Type} (system : FileSystem m Handle)
  (readers : Readers)

def readText (file : String) : ExceptT Failure m String := do
  match ← system.openFile file with
  | .error cause => throw (.unreadable file cause)
  | .ok handle =>
    let reading ← system.readAll handle
    match reading.fault, String.fromUTF8? reading.bytes with
    | some cause, _ => throw (.unreadable file cause)
    | none, none => throw (.unreadable file .undecodable)
    | none, some text => return text

def readSettings (file : String) : ExceptT Failure m Settings := do
  match readers.settings? (← readText system file) with
  | none => throw (.invalidSettings file)
  | some settings => return settings.complete

def loadSettings : Option String → ExceptT Failure m Settings
  | some file => readSettings system readers file
  | none => do
    if ← system.isFile standardSettingsFile then readSettings system readers standardSettingsFile
    else return .standard

def loadNetlist (file : String) : ExceptT Failure m Netlist := do
  match Source.readNetlist (← readText system file) with
  | .error cause => throw (.invalidCircuit file cause)
  | .ok netlist => return netlist

def createTarget : Option String → ExceptT Failure m (Option Handle)
  | none => return none
  | some file => do
    match ← system.createFile file with
    | .error cause => throw (.uncreated file cause)
    | .ok handle => return some handle

def deliver (target : Option Handle) (text : String) : ExceptT Failure m Unit :=
  match target with
  | some handle => system.writeAll handle text.toUTF8
  | none => system.display text

/-- Simulates a netlist. The output file is made empty as soon as the vectors have been opened, and
before they are read; what is written before an error remains. -/
def simulate (netlist : Netlist) (vectors : String) (output : Option String) :
    ExceptT Failure m Unit := do
  match ← system.openFile vectors with
  | .error cause => throw (.unopened vectors cause)
  | .ok source =>
    let target ← createTarget system output
    let reading ← system.readAll source
    let simulation := netlist.simulate reading.lines none
    deliver system target (String.ofList simulation.written)
    match simulation.result, reading.fault with
    | .error cause, _ => throw (.simulation vectors cause)
    | .ok _, some cause => throw (.interrupted vectors cause)
    | .ok _, none => return ()

def analyze (netlist : Netlist) : ExceptT Failure m Unit := do
  match netlist.analyze with
  | .error cause => throw (.analysis cause)
  | .ok analysis =>
    match analysis.report? netlist.toHeader with
    | none => throw .unnamedSignal
    | some report => system.display report

/-- Carries out an action. Settings are read first, also those that are not needed. -/
def perform (settingsFile : Option String) (action : Action) : ExceptT Failure m Unit := do
  let settings ← loadSettings system readers settingsFile
  match action with
  | .simulate circuit vectors output => do
    let netlist ← loadNetlist system circuit
    simulate system netlist (vectors.getD settings.vectors) (output <|> settings.output)
  | .analyze circuit => do
    let netlist ← loadNetlist system circuit
    analyze system netlist

inductive Exit
  | success
  | failure (cause : Failure)
  | usage
  deriving DecidableEq, Repr

namespace Exit

def code : Exit → Nat
  | success => 0
  | failure _ => 1
  | usage => 2

end Exit

def run (arguments : List String) : m Exit := do
  match readers.request? arguments with
  | none => return .usage
  | some .help => do
    system.display readers.usage
    return .success
  | some (.run settingsFile action) => do
    match ← (perform system readers settingsFile action).run with
    | .error cause => return .failure cause
    | .ok () => return .success

end

end Command

end GateLevel
