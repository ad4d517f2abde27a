import Renaming.Backup.Manifest
import Renaming.Calendar
import Renaming.Walk.Collect

/-!
Taking a backup. Every run has a directory of its own, made when its first copy is taken; each copy
is entered in the manifest before anything else happens to its file.
-/

namespace Renaming.Backup

open Walk (SourceFile)

/-- The directory that holds the backups unless another is given. -/
def defaultRoot : String := "backups"

/-- The backup of one run. -/
structure Session where
  /-- The directory that holds the backups of all runs. -/
  root : String
  /-- The name of the directory of this run, from when the run started. -/
  name : String
  createdAt : String
  /-- The directory of this run, once it is made. -/
  dir : Option String := none
  /-- The copies taken so far. -/
  copies : List Copy := []
  deriving DecidableEq, Repr

/-- The backup of a run that starts at an instant. -/
def Session.start (root : String) (started : Instant) : Session :=
  { root, name := started.compact, createdAt := started.toFull }

section

variable {m : Type → Type} [Monad m] [Files m]

/-- The greatest number that is tried behind the name of a directory. -/
def maxNumber : Nat := Nat.pow 2 31 - 1

/-- The failure to find a name for a directory. It stands in for an overflow: the suffix that counts
the names tried is a number of 32 bits, and a program that counts on would overflow it here. -/
def noFreeName (path : String) : Failure :=
  (Cause.unexpected ("no free name for backup dir " ++ path) : Cause)

/-- The first of the numbered names for a directory that leads to nothing yet. When all numbers are
used up there is no answer but that failure, which no message of the tool announces. -/
def freePath (root name : String) : (tries number : Nat) → m (Except Failure String)
  | 0, _ => return .error (noFreeName (Path.join root name))
  | tries + 1, number => do
    let path := Path.join root (name ++ "-" ++ toString number)
    if ← Files.exists? path then freePath root name tries (number + 1) else return .ok path

namespace Session

/-- A path for the directory of a run that leads to nothing yet. -/
def freshDir (s : Session) : m (Except Failure String) := do
  let path := Path.join s.root s.name
  if ← Files.exists? path then freePath s.root s.name maxNumber 1 else return .ok path

/-- The directory of the run, which is made if there is none yet. -/
def open? (s : Session) : m (Except Failure String × Session) := do
  match s.dir with
  | some dir => return (.ok dir, s)
  | none =>
    match ← s.freshDir with
    | .error f => return (.error f, s)
    | .ok dir =>
      match ← Files.createDir dir ("create backup dir " ++ dir) with
      | .error f => return (.error f, s)
      | .ok _ => return (.ok dir, { s with dir := some dir })

/-- The manifest of the copies taken so far. -/
def manifest (s : Session) : Manifest := ⟨s.createdAt, s.copies⟩

/-- A path in the way a manifest writes it. -/
def slashed (path : String) : String :=
  String.ofList (path.toList.map fun c => if c = '\\' then '/' else c)

/-- Takes a copy of a file: the path of the copy. -/
def save (s : Session) (f : SourceFile) (bytes : ByteArray) :
    m (Except Failure String × Session) := do
  match ← s.open? with
  | (.error e, s) => return (.error e, s)
  | (.ok dir, s) =>
    let target := Path.join dir f.copyPath
    if ← Files.exists? target then
      let problem :=
        "backup path " ++ target ++ " is already used by another file in this run"
      return (.error (Cause.unexpected problem : Cause), s)
    match ← Files.writeCreating target bytes ("back up " ++ f.path) with
    | .error e => return (.error e, s)
    | .ok _ =>
      let file := (← Files.realPath? f.path).getD f.path
      let s := { s with copies := s.copies ++ [⟨slashed f.copyPath, file⟩] }
      match ← Files.writeWhole (Path.join dir Manifest.fileName) s.manifest.text
          "write backup manifest" with
      | .error e => return (.error e, s)
      | .ok _ => return (.ok target, s)

end Session

end

end Renaming.Backup
