import CaseTable.CommandLine.Program

/-!
# The executable

The file system of the machine as a `Storage`, and the entry point. Everything that is decided is
decided elsewhere; here requests are passed on to the system and its faults are put into words.
-/

namespace CaseTable.Machine

/-- A fault of the system, in its own words and with its number. -/
def fault (e : IO.Error) : Fault :=
  let numbered (code : UInt32) (details : String) : Fault :=
    .other s!"{details} (os error {code})"
  match e with
  | .alreadyExists _ code details
  | .invalidArgument _ code details
  | .permissionDenied _ code details
  | .resourceExhausted _ code details
  | .inappropriateType _ code details
  | .noSuchThing _ code details => numbered code details
  | .noFileOrDirectory _ code details
  | .interrupted _ code details => numbered code details
  | .otherError code details
  | .resourceBusy code details
  | .resourceVanished code details
  | .unsupportedOperation code details
  | .hardwareFault code details
  | .unsatisfiedConstraints code details
  | .illegalOperation code details
  | .protocolError code details
  | .timeExpired code details => numbered code details
  | .unexpectedEof => .other "unexpected end of file"
  | .userError details => .other details

/-- Whether a fault of opening means that there is nothing at the path. -/
def meansAbsent (e : IO.Error) : Bool :=
  match e with
  | .permissionDenied .. => false
  | _ => true

/-- Runs an action of the system and keeps its fault. -/
def attempt {α : Type} (action : IO α) : IO (Except Fault α) := do
  try
    return .ok (← action)
  catch e =>
    return .error (fault e)

structure OpenFile where
    path : Text
    handle : IO.FS.Handle

/-- Creates a file under the first free one of the names from number `n` on, of which `tries` are
left. -/
def createFree (directory : Text) (n : Nat) : Nat → IO (Except Fault OpenFile)
  | 0 => return .error .noFreeName
  | tries + 1 => do
      let path := directory ++ '/' :: ".tmp".toList ++ (Nat.repr n).toList
      try
        let handle ← IO.FS.Handle.mk path.toString .writeNew
        return .ok ⟨path, handle⟩
      catch e =>
        match e with
        | .alreadyExists .. => createFree directory (n + 1) tries
        | _ => return .error (fault e)

/-- The files of the machine. -/
instance : Storage IO where
  Temporary := OpenFile
  exists? path := do
    try
      let _ ← IO.FS.Handle.mk path.toString .read
      return true
    catch e =>
      return !meansAbsent e
  read path := attempt do
    return (← IO.FS.readBinFile path.toString).toList
  createTemporary directory := createFree directory 0 1000
  temporaryPath file := file.path
  write file content := attempt (file.handle.write content.toByteArray)
  flush file := attempt file.handle.flush
  replace file path := attempt (IO.FS.rename file.path.toString path.toString)
  discard file := do
    let _ ← attempt (IO.FS.removeFile file.path.toString)

end CaseTable.Machine

open CaseTable in
def main (arguments : List String) : IO UInt32 := do
  let out ← IO.getStdout
  let err ← IO.getStderr
  let terminal := (← out.isTty) && (← err.isTty)
  let outcome ← CommandLine.run terminal (arguments.map String.toList)
  out.putStr outcome.out.toString
  out.flush
  err.putStr outcome.err.toString
  err.flush
  return outcome.status.toUInt32
