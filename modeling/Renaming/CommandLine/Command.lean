import Renaming.CommandLine.Arguments

/-!
The commands of the tool, with what the command line says about each.
-/

namespace Renaming.CommandLine

/-- What is said about a run. -/
structure Apply where
  rulesFile : String
  /-- The directories to rename in; the current one if none is named. -/
  targets : List String := []
  extensions : Option (List String) := none
  excluded : Option (List String) := none
  protect : List String := []
  dryRun : Bool := false
  force : Bool := false
  /-- The directory that holds the backups. -/
  backupRoot : Option String := none
  /-- The file to which the report is written too. -/
  report : Option String := none
  /-- The command line to run afterwards. -/
  verify : Option String := none
  /-- The time after which that command is stopped, in seconds. -/
  verifyTimeout : Option Nat := none
  deriving DecidableEq, Repr

/-- A command. -/
inductive Command
  | version
  | apply (a : Apply)
  | check (rulesFile : String)
  | restore (runDir : String) (dryRun : Bool)
  deriving DecidableEq, Repr

/-- The number that a word of digits writes, with or without a plus sign, if it has 64 bits. -/
def number? (word : String) : Option Nat :=
  let digits := match word.toList with
    | '+' :: digits => digits
    | digits => digits
  if digits.isEmpty || !digits.all Char.isDigit then none
  else
    let n := digits.foldl (fun n d => n * 10 + (d.toNat - '0'.toNat)) 0
    if n < UInt64.size then some n else none

namespace Given

/-- The value of an option that must be given. -/
def need (x : Given) (option : String) : Except Misuse String :=
  match x.value? option with
  | some value => .ok value
  | none => .error (.missing ("--" ++ option))

/-- The parts of the values of an option between their commas. -/
def list? (x : Given) (option : String) : Option (List String) :=
  match x.values option with
  | [] => none
  | values => some (values.flatMap (·.splitOn ","))

/-- The value of an option that is a number. -/
def number? (x : Given) (option : String) : Except Misuse (Option Nat) :=
  match x.value? option with
  | none => .ok none
  | some word =>
    match CommandLine.number? word with
    | some n => .ok (some n)
    | none => .error (.noNumber word)

/-- The operand, of which there must be one. -/
def operand (x : Given) (what : String) : Except Misuse String :=
  match x.operands with
  | [] => .error (.missing what)
  | [word] => .ok word
  | _ :: word :: _ => .error (.unknown word)

/-- What is given without operands. -/
def noOperands (x : Given) : Except Misuse Unit :=
  match x.operands with
  | [] => .ok ()
  | word :: _ => .error (.unknown word)

end Given

namespace Command

/-- The options of a run. -/
def applyOptions : Options :=
  [("rules-file", .single), ("target", .repeatable), ("extensions", .repeatable),
    ("exclude", .repeatable), ("protect", .repeatable), ("dry-run", .flag), ("force", .flag),
    ("backup-dir", .single), ("report", .single), ("verify", .single),
    ("verify-timeout", .single)]

/-- The command that renames. -/
def readApply (words : List String) : Except Misuse Command := do
  let x ← applyOptions.read words {}
  x.noOperands
  return .apply
    { rulesFile := ← x.need "rules-file"
      targets := x.values "target"
      extensions := x.list? "extensions"
      excluded := x.list? "exclude"
      protect := x.values "protect"
      dryRun := x.has "dry-run"
      force := x.has "force"
      backupRoot := x.value? "backup-dir"
      report := x.value? "report"
      verify := x.value? "verify"
      verifyTimeout := ← x.number? "verify-timeout" }

/-- The command that looks for conflicts. -/
def readCheck (words : List String) : Except Misuse Command := do
  let x ← Options.read [("rules-file", .single)] words {}
  x.noOperands
  return .check (← x.need "rules-file")

/-- The command that brings a backup back. -/
def readRestore (words : List String) : Except Misuse Command := do
  let x ← Options.read [("dry-run", .flag)] words {}
  return .restore (← x.operand "the directory of a run") (x.has "dry-run")

/-- The command that the words of a command line give. The texts of help are left out: `--help` and
`-h`, which would be answered with such a text and no failure, are words that are not known here. -/
def read : List String → Except Misuse Command
  | [] => .error .noCommand
  | "apply" :: rest => readApply rest
  | "check" :: rest => readCheck rest
  | "restore" :: rest => readRestore rest
  | word :: _ =>
    if word = "--version" ∨ "-V".toList.isPrefixOf word.toList then .ok .version
    else .error (.unknown word)

end Command

end Renaming.CommandLine
