import Renaming.Backup.Restore
import Renaming.CommandLine.Command
import Renaming.Run

/-!
What the tool answers to a command: a text and an exit code. The text is an object that says whether
the command succeeded, with its data or with its failure.
-/

namespace Renaming.CommandLine

/-! ### Answers -/

/-- What the tool writes, and the code with which it ends. -/
structure Answer where
  output : String
  /-- What is written apart from the output if the command line itself is wrong. -/
  complaint : Option String := none
  exitCode : Nat
  deriving DecidableEq, Repr

/-- The exit code if the user asked for something that cannot be done. -/
def refused : Nat := 2

/-- The exit code if something went wrong on the way. -/
def failed : Nat := 1

/-- The name of the tool and its version. -/
def versionLine : String := "relabel 0.3.0"

namespace Answer

/-- The answer of a command that succeeded. -/
def success (data : Json) (exitCode : Nat) : Answer :=
  { output := (Json.obj [("success", .bool true), ("data", data.sorted)]).pretty ++ "\n", exitCode }

/-- A failure as an object. -/
def failureJson (f : Failure) : Json :=
  let hints := f.hints.map fun hint => Json.obj [("message", .str hint)]
  .obj ([("code", .str f.cause.code), ("message", .str f.cause.message),
    ("details", f.cause.details.sorted)] ++
    if hints.isEmpty then [] else [("hints", .arr hints)])

/-- The answer of a command that failed. -/
def failure (f : Failure) : Answer :=
  { output := (Json.obj [("success", .bool false), ("error", failureJson f)]).pretty ++ "\n"
    exitCode := if f.cause.isConfiguration then refused else failed }

/-- The answer to a command line that is wrong. -/
def misuse (e : Misuse) : Answer :=
  { output := "", complaint := some ("error: " ++ e.message), exitCode := refused }

/-- The answer that names the version. -/
def version : Answer := { output := versionLine ++ "\n", exitCode := 0 }

end Answer

/-! ### Checking a rules file -/

/-- Whether no conflict of a rule set keeps it from being applied. -/
def isClean (rules : RuleSet) : Bool := !rules.conflicts.any Conflict.blocks

/-- What is known about a rule set, as an object. -/
def checkJson (path : String) (rules : RuleSet) : Json :=
  .obj [("command", .str "check"), ("rules_file", .str path),
    ("rules", .arr (rules.rules.map Rule.toJson)), ("protected_count", .nat rules.guardedCount),
    ("extensions", .strs (rules.extensions.getD Walk.defaultExtensions)),
    ("exclude", .strs (rules.excluded.getD Walk.defaultExcluded)),
    ("conflicts", .arr (rules.conflicts.map Report.conflictJson)),
    ("clean", .bool (isClean rules))]

/-! ### A run -/

namespace Apply

/-- The request that a command line makes with a rule set. -/
def request (home : String) (a : Apply) (rules : RuleSet) : Except Failure Request := do
  let targets := if a.targets.isEmpty then ["."] else a.targets.map (Path.expandHome home)
  let plain : Request := { rules, targets }
  let check ← match a.verify with
    | none => pure none
    | some line => (Check.ofLine line none a.verifyTimeout).map some
  return { plain with
    extensions := a.extensions.getD plain.extensions
    excluded := a.excluded.getD plain.excluded
    dryRun := a.dryRun
    force := a.force
    backupRoot := Path.expandHome home (a.backupRoot.getD Backup.defaultRoot)
    check }

/-- What comes of a run that the command line asked for. -/
structure Applied where
  rulesFile : String
  /-- The file to which the report was written too. -/
  reportPath : Option String := none
  report : Report
  deriving DecidableEq, Repr

/-- What came of a run, as an object. -/
def Applied.toJson (x : Applied) : Json :=
  .obj ([("command", .str "apply"), ("rules_file", .str x.rulesFile)] ++
    Json.entry? "report_path" .str x.reportPath ++ [("report", x.report.toJson)])

end Apply

section

variable {m : Type → Type} [Monad m] [Files m]

/-- Carries out the run that a command line asks for, and writes the report to the file that it
names. -/
def Apply.run (home : String) (a : Apply) (started : Instant) :
    m (Except Failure Apply.Applied) := do
  let rulesFile := Path.expandHome home a.rulesFile
  match ← Run.loadRules rulesFile with
  | .error f => return .error f
  | .ok rules =>
    match a.request home (rules.protect a.protect) with
    | .error f => return .error f
    | .ok q =>
      match ← Run.run home q started with
      | .error f => return .error f
      | .ok report =>
        match a.report.map (Path.expandHome home) with
        | none => return .ok { rulesFile, report }
        | some path =>
          match ← Run.writeReport report path with
          | .error f => return .error f
          | .ok _ => return .ok { rulesFile, reportPath := some path, report }

/-- Carries out a command. -/
def Command.answer (home : String) (started : Instant) : Command → m Answer
  | .version => return Answer.version
  | .apply a => do
    match ← a.run home started with
    | .error f => return Answer.failure f
    | .ok x => return Answer.success x.toJson 0
  | .check rulesFile => do
    let path := Path.expandHome home rulesFile
    match ← Run.loadRules path with
    | .error f => return Answer.failure f
    | .ok rules =>
      return Answer.success (checkJson path rules) (if isClean rules then 0 else refused)
  | .restore runDir dryRun => do
    match ← Backup.restore (Path.expandHome home runDir) dryRun with
    | .error f => return Answer.failure f
    | .ok r =>
      let data := Json.obj (("command", .str "restore") :: r.entries)
      return Answer.success data (if r.errors.isEmpty then 0 else failed)

/-- Carries out what the words of a command line ask for. -/
def answer (home : String) (started : Instant) (words : List String) : m Answer := do
  match Command.read words with
  | .error e => return Answer.misuse e
  | .ok c => c.answer home started

end

end Renaming.CommandLine
