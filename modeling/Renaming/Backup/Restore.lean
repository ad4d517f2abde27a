import Renaming.Backup.Manifest
import Renaming.Files.Operations
import Renaming.Report

/-!
Bringing a backup back: every copy is written over the file that it was taken from. A copy that
cannot be read or written back does not keep the others from being brought back.
-/

namespace Renaming.Backup

/-- What came of bringing a backup back. -/
structure Restored where
  runDir : String
  dryRun : Bool
  files : List String := []
  errors : List FileError := []
  deriving DecidableEq, Repr

/-- What came of it, as the entries of an object. -/
def Restored.entries (r : Restored) : List (String × Json) :=
  [("run_dir", .str r.runDir), ("dry_run", .bool r.dryRun), ("restored", .strs r.files),
    ("errors", .arr (r.errors.map Report.errorJson))]

section

variable {m : Type → Type} [Monad m] [Files m]

/-- The manifest in the directory of a run. -/
def loadManifest (runDir : String) : m (Except Failure Manifest) := do
  let path := Path.join runDir Manifest.fileName
  let failure (problem : String) : Failure :=
    (Cause.badValue "backup_dir" (some runDir) problem : Cause)
  match ← Files.readText path with
  | .error e => return .error (failure ("cannot read " ++ path ++ ": " ++ e.message))
  | .ok text =>
    match Manifest.parse text.toList with
    | .error f =>
      return .error (failure ("invalid manifest " ++ path ++ ": " ++ f.message text.toList))
    | .ok x => return .ok x

/-- Brings one copy back, or in a dry run only reads it. -/
def restoreCopy (runDir : String) (dryRun : Bool) (c : Copy) : m (Except Failure Unit) := do
  let source := Path.join runDir c.backup
  match ← Files.readBytes source ("read backup " ++ source) with
  | .error f => return .error f
  | .ok bytes =>
    if dryRun then return .ok ()
    Files.writeCreating c.file bytes ("restore " ++ c.file)

/-- Brings copies back, one after the other. -/
def restoreAll : List Copy → Restored → m Restored
  | [], r => return r
  | c :: rest, r => do
    match ← restoreCopy r.runDir r.dryRun c with
    | .error f => restoreAll rest { r with errors := r.errors ++ [⟨c.file, f.oneLine⟩] }
    | .ok _ => restoreAll rest { r with files := r.files ++ [c.file] }

/-- Brings back all copies in the directory of a run. -/
def restore (runDir : String) (dryRun : Bool) : m (Except Failure Restored) := do
  match ← loadManifest runDir with
  | .error f => return .error f
  | .ok x => return .ok (← restoreAll x.copies { runDir, dryRun })

end

end Renaming.Backup
