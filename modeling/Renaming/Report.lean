import Renaming.Rule.Conflict
import Renaming.Json.Printer
import Renaming.Path
import Renaming.Verification

/-!
The report of a run, and its two forms: JSON and Markdown.
-/

namespace Renaming

/-- Numbers by name, in the order of the names. -/
abbrev Tally := List (String × Nat)

namespace Tally

/-- Adds to the number of a name. -/
def add (name : String) (n : Nat) : Tally → Tally
  | [] => [(name, n)]
  | (k, m) :: rest =>
    if k = name then (k, m + n) :: rest
    else if name < k then (name, n) :: (k, m) :: rest
    else (k, m) :: add name n rest

/-- The sums of the numbers of each name. -/
def ofList (counts : List (String × Nat)) : Tally :=
  counts.foldl (fun tally (name, n) => tally.add name n) []

/-- The sum of all numbers. -/
def total : Tally → Nat
  | [] => 0
  | (_, n) :: rest => n + total rest

/-- A tally as an object. -/
def toJson (t : Tally) : Json := .obj (t.map fun (name, n) => (name, .nat n))

end Tally

/-- Something that went wrong with one file. -/
structure FileError where
  file : String
  message : String
  deriving DecidableEq, Repr

/-- A place that kept its name because the name is protected. -/
structure SkippedPlace where
  file : String
  line : Nat
  name : String
  deriving DecidableEq, Repr

/-- A file that was changed, or would be. -/
structure FileRecord where
  path : String
  /-- The digest of the content before the change. -/
  sha256 : String
  replacements : Nat
  hits : Tally
  /-- The copy of the content before the change. -/
  backup : Option String := none
  deriving DecidableEq, Repr

/-- The report of a run. -/
structure Report where
  /-- When the run started. -/
  timestamp : String
  dryRun : Bool
  scanned : Nat := 0
  modified : Nat := 0
  replacements : Nat := 0
  hits : Tally
  skipped : List SkippedPlace := []
  errors : List FileError := []
  conflicts : List Conflict := []
  files : List FileRecord := []
  backupDir : Option String := none
  verification : Option Verification := none
  deriving DecidableEq, Repr

namespace Report

/-- The report of a run that has found nothing yet. -/
def start (timestamp : String) (dryRun : Bool) (labels : List String) : Report :=
  { timestamp, dryRun, hits := Tally.ofList (labels.map (·, 0)) }

/-- The report with one more error. -/
def addError (r : Report) (file message : String) : Report :=
  { r with errors := r.errors ++ [⟨file, message⟩] }

/-- The report with one more file. -/
def addFile (r : Report) (f : FileRecord) : Report :=
  { r with
    modified := r.modified + 1
    replacements := r.replacements + f.replacements
    hits := f.hits.foldl (fun tally (name, n) => tally.add name n) r.hits
    files := r.files ++ [f] }

/-! ### JSON -/

/-- An error as an object. -/
def errorJson (e : FileError) : Json := .obj [("file", .str e.file), ("message", .str e.message)]

/-- A skipped place as an object. -/
def skipJson (s : SkippedPlace) : Json :=
  .obj [("file", .str s.file), ("line", .nat s.line), ("name", .str s.name)]

/-- A conflict as an object. -/
def conflictJson (c : Conflict) : Json :=
  .obj [("kind", .str c.kind), ("message", .str c.message),
    ("rules", .strs (c.rules.map Rule.label))]

/-- A file as an object. -/
def fileJson (f : FileRecord) : Json :=
  .obj ([("path", .str f.path), ("sha256", .str f.sha256),
    ("replacements", .nat f.replacements), ("rule_hits", f.hits.toJson)] ++
    Json.entry? "backup" .str f.backup)

/-- A verification as an object. -/
def verificationJson (v : Verification) : Json :=
  .obj [("command", .str v.command), ("exit_code", Json.ofOption .int v.ending.exitCode),
    ("timed_out", .bool v.ending.timedOut), ("duration_ms", .nat v.ending.duration)]

/-- The report as an object. -/
def toJson (r : Report) : Json :=
  .obj [("timestamp", .str r.timestamp), ("dry_run", .bool r.dryRun),
    ("files_scanned", .nat r.scanned), ("files_modified", .nat r.modified),
    ("total_replacements", .nat r.replacements), ("rule_hits", r.hits.toJson),
    ("skipped_protected", .arr (r.skipped.map skipJson)),
    ("errors", .arr (r.errors.map errorJson)),
    ("conflicts", .arr (r.conflicts.map conflictJson)),
    ("files", .arr (r.files.map fileJson)),
    ("backup_dir", Json.ofOption .str r.backupDir),
    ("verification", Json.ofOption verificationJson r.verification)]

/-! ### Markdown -/

/-- How a verification ended, in words. -/
def endingText (e : Ending) : String :=
  if e.succeeded then "passed"
  else if e.timedOut then "timed out"
  else
    match e.exitCode with
    | some code => "failed, exit code " ++ toString code
    | none => "terminated by signal"

/-- A text set as code. -/
def code (s : String) : String := "\x60" ++ s ++ "\x60"

/-- A section with a heading, which is left out if it has no lines. -/
def paragraph (heading : String) (lines : List String) : List String :=
  if lines.isEmpty then [] else ["", "## " ++ heading, ""] ++ lines

/-- The lines of the report in Markdown. -/
def markdownLines (r : Report) : List String :=
  ["# Rename report (" ++ (if r.dryRun then "dry run" else "applied") ++ ")", "",
    "- Timestamp: " ++ r.timestamp,
    "- Files scanned: " ++ toString r.scanned,
    "- Files modified: " ++ toString r.modified,
    "- Total replacements: " ++ toString r.replacements] ++
  (r.backupDir.toList.map fun dir => "- Backup: " ++ code dir) ++
  (r.verification.toList.map fun v =>
    "- Verification: " ++ code v.command ++ " (" ++ endingText v.ending ++ ")") ++
  ["", "## Rule hits", "", "| Rule | Hits |", "| --- | ---: |"] ++
  (r.hits.map fun (name, n) => "| " ++ code name ++ " | " ++ toString n ++ " |") ++
  paragraph "Files" (r.files.map fun f =>
    "- " ++ code f.path ++ ": " ++ toString f.replacements ++ " replacement(s)") ++
  paragraph "Rule conflicts" (r.conflicts.map fun c => "- " ++ c.message) ++
  paragraph "Skipped protected names" (r.skipped.map fun s =>
    "- " ++ code s.name ++ " at " ++ s.file ++ ":" ++ toString s.line) ++
  paragraph "Errors" (r.errors.map fun e => "- " ++ e.file ++ ": " ++ e.message)

/-- The report in Markdown. -/
def toMarkdown (r : Report) : String := String.join (r.markdownLines.map (· ++ "\n"))

/-- The report in the form that the extension of a file asks for. -/
def textFor (r : Report) (path : String) : String :=
  match Path.extension? path with
  | some "md" | some "markdown" => r.toMarkdown
  | _ => r.toJson.pretty

end Report

end Renaming
