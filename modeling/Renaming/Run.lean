import Renaming.Backup.Session
import Renaming.Digest
import Renaming.Fate
import Renaming.Rule.Document

/-!
A run: the files of some directories are renamed by a rule set, after copies of them have been
taken, and a report says what was done. All that can be refused is refused before anything is
written; what goes wrong afterwards stands in the report.
-/

namespace Renaming

/-- What a run is asked to do. -/
structure Request where
  rules : RuleSet
  /-- The directories to rename in. -/
  targets : List String
  extensions : List String := rules.extensions.getD Walk.defaultExtensions
  excluded : List String := rules.excluded.getD Walk.defaultExcluded
  /-- Whether nothing is to be written. -/
  dryRun : Bool := false
  /-- Whether to write in spite of conflicts. -/
  force : Bool := false
  /-- The directory that holds the backups. -/
  backupRoot : String := Backup.defaultRoot
  /-- The command to run afterwards. -/
  check : Option Check := none

namespace Request

/-- Why a run is refused outright. -/
def refusal? (q : Request) : Option Cause :=
  let blocking := q.rules.conflicts.filter Conflict.blocks
  if q.rules.rules.isEmpty then
    some (.badValue "rules" none "the rule set contains no rules")
  else if q.targets.isEmpty then some (.missingArguments ["target"])
  else if !blocking.isEmpty && !q.dryRun && !q.force then
    some (.conflictingRules (blocking.map Conflict.message))
  else none

end Request

namespace Run

open Walk (SourceFile)

/-- The name of the file that holds the report of a run. -/
def reportName : String := "report.json"

/-- The counts of a renaming by the names of the rules, without those that renamed nothing. -/
def hitsOf (labels : List String) (hits : List Nat) : Tally :=
  Tally.ofList ((labels.zip hits).filter fun (_, n) => 0 < n)

/-- The report of a run as far as its files are concerned. -/
def draft (q : Request) (started : Instant) (walked : Walk.Walked)
    (fates : List (SourceFile × Fate)) : Report :=
  let r := Report.start started.toSeconds q.dryRun q.rules.labels
  let r := { r with conflicts := q.rules.conflicts }
  let r := walked.unlisted.foldl (fun r u => r.addError u.path u.message) r
  fates.foldl (fun r (f, x) => r.addFate f.path x) r

/-- The course of a run. -/
structure Course where
  walked : Walk.Walked
  /-- What came of each file of the walk. -/
  fates : List (SourceFile × Fate)
  report : Report
  /-- Why the report could not be written beside the copies. -/
  unreported : Option Failure := none

section

variable {m : Type → Type} [Monad m] [Files m]

/-- Writes the new text of a file, after a copy of the old one has been taken. -/
def replaceFile (q : Request) (f : SourceFile) (bytes : ByteArray) (o : Outcome)
    (b : Backup.Session) : m (Fate × Backup.Session) := do
  let record : FileRecord :=
    { path := f.path, sha256 := Digest.sha256 bytes, replacements := o.occurrences
      hits := hitsOf q.rules.labels o.hits }
  if q.dryRun then return (.renamed o.skipped record, b)
  match ← b.save f bytes with
  | (.error e, b) => return (.unsaved o.skipped e, b)
  | (.ok copy, b) =>
    match ← Files.writeText f.path o.text ("write " ++ f.path) with
    | .error e => return (.unwritten o.skipped e, b)
    | .ok _ => return (.renamed o.skipped { record with backup := some copy }, b)

/-- Renames in one file. -/
def processFile (q : Request) (f : SourceFile) (b : Backup.Session) :
    m (Fate × Backup.Session) := do
  match ← Files.readBytes f.path ("read " ++ f.path) with
  | .error e => return (.unread e, b)
  | .ok bytes =>
    match String.fromUTF8? bytes with
    | none => return (.noText, b)
    | some source =>
      let o := rename q.rules.rules q.rules.guarded source
      if o.changed then replaceFile q f bytes o b else return (.unchanged o.skipped, b)

/-- Renames in some files, one after the other. -/
def processAll (q : Request) : List SourceFile → Backup.Session →
    m (List (SourceFile × Fate) × Backup.Session)
  | [], b => return ([], b)
  | f :: rest, b => do
    let (fate, b) ← processFile q f b
    let (fates, b) ← processAll q rest b
    return ((f, fate) :: fates, b)

/-- Carries out a check; if it cannot be started, that is an error of the report. -/
def verify (c : Check) (r : Report) : m Report := do
  match ← Files.runCommand c c.shown with
  | .ok ending => return { r with verification := some ⟨c.shown, ending⟩ }
  | .error f => return r.addError c.shown f.oneLine

/-- Writes a report to a file, in the form that its extension asks for. -/
def writeReport (r : Report) (path : String) : m (Except Failure Unit) := do
  match ← Files.makeFolder path ("create " ++ ·) with
  | .error f => return .error f
  | .ok _ => Files.writeText path (r.textFor path) ("write report " ++ path)

/-- The report with the result of the check, which is carried out only if files are written. -/
def checked (q : Request) (r : Report) : m Report :=
  match q.check with
  | some c => if q.dryRun then return r else verify c r
  | none => return r

/-- Writes the report beside the copies, if there are any. If that goes wrong, it is an error of the
report, and why it went wrong is given too. -/
def handIn (dir? : Option String) (r : Report) : m (Report × Option Failure) := do
  match dir? with
  | none => return (r, none)
  | some dir =>
    let path := Path.join dir reportName
    match ← writeReport r path with
    | .ok _ => return (r, none)
    | .error f => return (r.addError path f.oneLine, some f)

/-- What follows when all files are done: the check, and the report beside the copies. -/
def conclude (q : Request) (dir? : Option String) (r : Report) :
    m (Report × Option Failure) := do
  handIn dir? (← checked q { r with backupDir := dir? })

/-- Carries out a run that starts at an instant. -/
def course (home : String) (q : Request) (started : Instant) : m (Except Failure Course) := do
  match q.refusal? with
  | some cause => return .error cause
  | none =>
    let skipped := (← Files.realPath? q.backupRoot).toList
    match ← Walk.collect home q.targets q.extensions q.excluded skipped with
    | .error f => return .error f
    | .ok walked =>
      let (fates, backup) ← processAll q walked.files (.start q.backupRoot started)
      let (report, unreported) ← conclude q backup.dir (draft q started walked fates)
      return .ok { walked, fates, report, unreported }

/-- The report of a run that starts at an instant. -/
def run (home : String) (q : Request) (started : Instant) : m (Except Failure Report) := do
  return (← course home q started).map Course.report

/-- Reads a rule set from a file. -/
def loadRules (path : String) : m (Except Failure RuleSet) := do
  match Format.ofPath? path with
  | none => return .error (Cause.unknownFormat path : Cause)
  | some format =>
    match ← Files.readText path with
    | .error e =>
      return .error (Cause.badValue "rules_file" (some path)
        ("cannot read rules file: " ++ e.message) : Cause)
    | .ok text =>
      return (RuleSet.parse text format path).map fun s => { s with source := some path }

end

end Run

end Renaming
