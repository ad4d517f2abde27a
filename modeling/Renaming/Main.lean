import Renaming.CommandLine.Answer

/-!
The tool on a real system. Commands are never started here, so a check that is asked for ends as an
error of the report.
-/

namespace Renaming

/-- A number that stands for a refusal, or its negative in 32 bits. -/
def isCode (n : Nat) (code : UInt32) : Bool := code.toNat = n || code.toNat + n = UInt32.size

/-- The refusal that an error stands for. -/
def SystemError.ofError (e : IO.Error) : SystemError :=
  match e with
  | .noFileOrDirectory .. => .notFound
  | .alreadyExists .. => .alreadyExists
  | .permissionDenied .. => .denied
  | .resourceBusy .. => .busy
  | .inappropriateType _ code _ => if isCode 21 code then .isDirectory else .notDirectory
  | .invalidArgument _ code text =>
    if isCode 22 code then .nulInPath
    else if isCode 36 code then .nameTooLong
    else if isCode 40 code then .tooManyLinks
    else .other text
  | e => .other (toString e)

/-- The outcome of an action that may be refused. -/
def attempt (act : IO α) : IO (Except SystemError α) := do
  try return .ok (← act) catch e => return .error (.ofError e)

/-- The kind that a file type stands for. -/
def Kind.ofType : IO.FS.FileType → Kind
  | .dir => .directory
  | .file => .file
  | .symlink | .other => .other

instance : Files IO where
  read path := attempt (IO.FS.readBinFile path)
  list path := attempt do
    let entries ← ((← IO.currentDir) / path).readDir
    entries.toList.mapM fun e => return (e.fileName, .ofType (← e.path.symlinkMetadata).type)
  kind? path := do
    if path.isEmpty then return none
    let found ← attempt ((← IO.currentDir) / path).metadata
    return found.toOption.map (.ofType ·.type)
  realPath? path := return (← attempt (IO.FS.realPath path)).toOption.map (·.toString)
  makeDir path := attempt (IO.FS.createDir path)
  write path bytes := attempt (IO.FS.writeBinFile path bytes)
  rename source target := attempt (IO.FS.rename source target)
  launch _ := return .error (.other "commands are not started on this system")

/-- The current time: when the system made the entry of this process. -/
def now : IO Instant := do
  let m ← ((← IO.currentDir) / "/proc/self").metadata
  return ⟨m.modified.sec, m.modified.nsec.toNat⟩

end Renaming

open Renaming in
/-- Answers the command line. Without a home directory a tilde stands for itself. -/
def main (args : List String) : IO UInt32 := do
  let home := (← IO.getEnv "HOME").getD "~"
  let a ← CommandLine.answer home (← now) args
  IO.print a.output
  if let some complaint := a.complaint then IO.eprintln complaint
  return a.exitCode.toUInt32
