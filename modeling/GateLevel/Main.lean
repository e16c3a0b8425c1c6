import GateLevel.Command.Run

/-! The command on the files of the machine. -/

namespace GateLevel.Command

def FileError.ofCode (code : UInt32) (text : String) : FileError :=
  match code.toNat with
  | 2 => .notFound
  | 20 => .notDirectory
  | 21 => .isDirectory
  | 36 => .nameTooLong
  | code => .other code text

def FileError.ofIO : IO.Error → FileError
  | .noFileOrDirectory _ code text | .inappropriateType _ code text
  | .permissionDenied _ code text | .resourceExhausted _ code text
  | .invalidArgument _ code text | .noSuchThing _ code text | .alreadyExists _ code text
  | .otherError code text | .resourceBusy code text | .unsupportedOperation code text
  | .hardwareFault code text => ofCode code text
  | error => .other 0 error.toString

def attempt {α : Type} (access : IO α) : IO (Except FileError α) := do
  try
    return .ok (← access)
  catch error =>
    return .error (.ofIO error)

def machine : FileSystem IO IO.FS.Handle where
  -- A file that cannot be read is a file all the same. A directory can be opened, but not read.
  isFile name := do
    match ← attempt (IO.FS.Handle.mk name .read) with
    | .error .notFound | .error .notDirectory | .error .nameTooLong => return false
    | .error _ => return true
    | .ok handle =>
      match ← attempt (handle.read 1) with
      | .error .isDirectory => return false
      | _ => return true
  openFile name := attempt (IO.FS.Handle.mk name .read)
  createFile name := attempt (IO.FS.Handle.mk name .write)
  readAll handle := do
    let mut bytes := ByteArray.empty
    repeat
      match ← attempt (handle.read 65536) with
      | .error cause => return ⟨bytes, some cause⟩
      | .ok part =>
        if part.isEmpty then break
        bytes := bytes ++ part
    return ⟨bytes, none⟩
  writeAll handle contents := do
    handle.write contents
    handle.flush
  display text := do
    let output ← IO.getStdout
    output.putStr text
    output.flush

end GateLevel.Command

def main (arguments : List String) : IO UInt32 := do
  let exit ← GateLevel.Command.run GateLevel.Command.machine GateLevel.Command.readers arguments
  match exit with
  | .success => pure ()
  | .usage => IO.eprint GateLevel.Command.usage
  | .failure cause => IO.eprintln cause.message
  return UInt32.ofNat exit.code
