import GateLevel.Command.Program

/-! Files in memory, below a directory in which names begin that have no slash in front. -/

namespace GateLevel.Command

structure Directory where
  path : List String
  -- why nothing can be made in it, if nothing can
  sealed : Option FileError

/-- Contents of files, known by the names that lead to them from the top. The working directory and
those above a file are there too. What is in a sink is always empty. -/
structure Files where
  entries : List (List String × ByteArray)
  directories : List Directory
  sinks : List (List String)
  working : List String

inductive Place
  | site (path : List String)
  | directory
  | sink
  -- a slash follows a name that is not a directory, and the cause says why nothing is below it
  | slashed (cause : FileError)

namespace Files

def parts (name : String) : List String := (name.toList.splitOn '/').map String.ofList

def contents? (path : List String) (files : Files) : Option ByteArray := files.entries.lookup path

def isDirectory (path : List String) (files : Files) : Bool :=
  path.isPrefixOf files.working || files.directories.any (·.path = path) ||
    files.entries.any fun (other, _) => path.length < other.length && path.isPrefixOf other

def partLimit : Nat := 255

def pathLimit : Nat := 4095

def find (files : Files) (path : List String) : Except FileError Place :=
  if path.any (·.utf8ByteSize > partLimit) then .error .nameTooLong
  else if files.sinks.contains path then .ok .sink
  else .ok (.site path)

def obstacle (files : Files) (path : List String) : FileError :=
  match files.find path with
  | .error cause => cause
  | .ok (.site path) => if (files.contents? path).isSome then .notDirectory else .notFound
  | .ok _ => .notDirectory

def follow (files : Files) (directory : List String) : List String → Except FileError Place
  | [] => .ok .directory
  | part :: rest =>
    if part = "" || part = "." then files.follow directory rest
    else if part = ".." then files.follow directory.dropLast rest
    else
      let path := directory ++ [part]
      if files.isDirectory path then files.follow path rest
      else if rest.isEmpty then files.find path
      else if rest.all (· = "") then .ok (.slashed (files.obstacle path))
      else .error (files.obstacle path)

def locate (files : Files) (name : String) : Except FileError Place :=
  if name.toList.contains '\x00' then .error .invalidName
  else if name.utf8ByteSize > pathLimit then .error .nameTooLong
  else
    match parts name with
    | [""] => .error .notFound
    | "" :: rest => files.follow [] rest
    | path => files.follow files.working path

def replaceIn (path : List String) (contents : ByteArray) :
    List (List String × ByteArray) → List (List String × ByteArray)
  | [] => [(path, contents)]
  | (other, old) :: rest =>
    if other = path then (path, contents) :: rest
    else (other, old) :: replaceIn path contents rest

def replace (path : List String) (contents : ByteArray) (files : Files) : Files :=
  { files with entries := replaceIn path contents files.entries }

def refusal? (files : Files) (path : List String) : Option FileError :=
  (files.directories.find? (·.path = path.dropLast)).bind Directory.sealed

inductive Handle
  | file (path : List String)
  | directory
  | sink
  deriving DecidableEq, Repr

def openFile (files : Files) (name : String) : Except FileError Handle :=
  match files.locate name with
  | .error cause | .ok (.slashed cause) => .error cause
  | .ok (.site path) =>
    if (files.contents? path).isSome then .ok (.file path) else .error .notFound
  | .ok .directory => .ok .directory
  | .ok .sink => .ok .sink

def isFile (files : Files) (name : String) : Bool :=
  match files.openFile name with
  | .ok (.file _) => true
  | _ => false

def createFile (files : Files) (name : String) : Except FileError (Handle × Files) :=
  match files.locate name with
  | .error cause => .error cause
  | .ok .directory | .ok (.slashed _) => .error .isDirectory
  | .ok .sink => .ok (.sink, files)
  | .ok (.site path) =>
    match files.contents? path, files.refusal? path with
    | none, some cause => .error cause
    | _, _ => .ok (.file path, files.replace path .empty)

def readAll (files : Files) : Handle → Reading
  | .file path => ⟨(files.contents? path).getD .empty, none⟩
  | .directory => ⟨.empty, some .isDirectory⟩
  | .sink => ⟨.empty, none⟩

def writeAll (files : Files) (contents : ByteArray) : Handle → Files
  | .file path => files.replace path contents
  | .directory | .sink => files

def read (files : Files) (name : String) : Except FileError ByteArray := do
  let reading := files.readAll (← files.openFile name)
  match reading.fault with
  | some cause => throw cause
  | none => return reading.bytes

def topDirectories : List String :=
  ["bin", "boot", "dev", "etc", "home", "lib", "media", "mnt", "opt", "root", "run", "sbin",
    "srv", "tmp", "usr", "var"]

def sealedDirectories : List Directory :=
  [⟨["proc"], some .notFound⟩, ⟨["sys"], some (.other 13 "Permission denied")⟩]

def sandbox : List String := ["tmp", "sandbox"]

/-- Files below a directory of their own on a machine that holds no others. Their names are plain:
they have no empty part and no dots. -/
def ofList (files : List (String × ByteArray)) : Files where
  entries := files.map fun (name, contents) => (sandbox ++ parts name, contents)
  directories := sealedDirectories ++ topDirectories.map fun name => ⟨[name], none⟩
  sinks := [["dev", "null"]]
  working := sandbox

end Files

structure Session where
  files : Files
  shown : String

namespace Session

def system : FileSystem (StateM Session) Files.Handle where
  isFile name := do return (← get).files.isFile name
  openFile name := do return (← get).files.openFile name
  createFile name := do
    let session ← get
    match session.files.createFile name with
    | .error cause => return .error cause
    | .ok (handle, files) => do
      set { session with files }
      return .ok handle
  readAll handle := do return (← get).files.readAll handle
  writeAll handle contents := modify fun session =>
    { session with files := session.files.writeAll contents handle }
  display text := modify fun session => { session with shown := session.shown ++ text }

end Session

end GateLevel.Command
