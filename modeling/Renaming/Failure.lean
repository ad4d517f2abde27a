import Renaming.Json.Fault
import Renaming.Yaml.Problem

/-!
Failures: what has gone wrong, with the code, the message, the details and the hints that are shown
for it.
-/

namespace Renaming

/-- Why a text is no rules document. -/
inductive Unreadable
  /-- It is no JSON. -/
  | json (fault : Json.Fault) (text : List Char)
  /-- It is no YAML. -/
  | yaml (problem : Yaml.Problem)
  /-- It is a value of another shape. -/
  | shape (reason : Json.Mismatch)
  /-- It is neither a list nor an object. -/
  | noRules
  /-- Any other reason. -/
  | other (text : String)

/-- The words for why a text is no rules document. -/
def Unreadable.message : Unreadable → String
  | json fault text => fault.message text
  | yaml problem => problem.message
  | shape reason => reason.message
  | noRules => "expected a list of rules or an object with a 'rules' list"
  | other text => text

/-- What has gone wrong. -/
inductive Cause
  | unreadableRules (origin : String) (why : Unreadable)
  | badValue (key : String) (value : Option String) (problem : String)
  | unknownFormat (path : String)
  | conflictingRules (conflicts : List String)
  | missingArguments (names : List String)
  | badArgument (field problem : String)
  | io (problem : String) (context : Option String)
  | json (problem : String) (context : Option String)
  | unexpected (problem : String)

namespace Cause

/-- The code that names the kind of a cause. -/
def code : Cause → String
  | unreadableRules .. => "config.invalid_rules"
  | badValue .. => "config.invalid_value"
  | unknownFormat .. => "config.unsupported_format"
  | conflictingRules .. => "config.rule_conflict"
  | missingArguments .. => "validation.missing_argument"
  | badArgument .. => "validation.invalid_argument"
  | io .. => "internal.io_error"
  | json .. => "internal.json_error"
  | unexpected .. => "internal.unexpected"

/-- The message of a cause. -/
def message : Cause → String
  | unreadableRules origin _ => "Could not parse rules file " ++ origin
  | badValue _ _ problem => "Invalid configuration value: " ++ problem
  | unknownFormat path => "Unsupported rules file format: " ++ path
  | conflictingRules conflicts =>
    "Refusing to write: " ++ toString conflicts.length ++ " rule conflict(s) detected"
  | missingArguments _ => "Missing required argument"
  | badArgument _ problem => "Invalid argument: " ++ problem
  | io .. => "IO error"
  | json .. => "JSON error"
  | unexpected _ => "Unexpected error"

/-- What is known about a cause, as an object. -/
def details : Cause → Json
  | unreadableRules origin why => .obj [("path", .str origin), ("error", .str why.message)]
  | badValue key value problem =>
    .obj ([("key", .str key)] ++ Json.entry? "value" .str value ++ [("problem", .str problem)])
  | unknownFormat path => .obj [("path", .str path)]
  | conflictingRules conflicts => .obj [("conflicts", .strs conflicts)]
  | missingArguments names => .obj [("args", .strs names)]
  | badArgument field problem => .obj [("field", .str field), ("problem", .str problem)]
  | io problem context => .obj ([("error", .str problem)] ++ Json.entry? "context" .str context)
  | json problem context =>
    .obj [("error", .str problem), ("context", Json.ofOption .str context)]
  | unexpected problem => .obj [("error", .str problem)]

/-- The hints that belong to a cause. -/
def hints : Cause → List String
  | unknownFormat _ => ["Use a .json, .yaml or .yml rules file"]
  | conflictingRules _ =>
    ["Inspect the conflicts with --dry-run, fix the rules file, or pass --force"]
  | _ => []

/-- Whether the cause lies in what the user asked for, and not in carrying it out. -/
def isConfiguration : Cause → Bool
  | io .. | json .. | unexpected _ => false
  | _ => true

end Cause

/-- A cause, and hints that were added to it. -/
structure Failure where
  cause : Cause
  advice : List String := []

namespace Failure

instance : Coe Cause Failure := ⟨fun cause => { cause }⟩

/-- The hints of a failure. -/
def hints (f : Failure) : List String := f.cause.hints ++ f.advice

/-- The failure with one more hint. -/
def withHint (f : Failure) (hint : String) : Failure := { f with advice := f.advice ++ [hint] }

/-- A failure on one line of a report: its context, and its error if the details tell it. -/
def oneLine (f : Failure) : String :=
  match (f.cause.details.get? "error").bind Json.str? with
  | none => f.cause.message
  | some error =>
    match (f.cause.details.get? "context").bind Json.str? with
    | some context => context ++ ": " ++ error
    | none => error

end Failure

end Renaming
