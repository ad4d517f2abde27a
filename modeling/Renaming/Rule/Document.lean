import Renaming.Json.Reader
import Renaming.Path
import Renaming.Rule.Set
import Renaming.Rule.Style
import Renaming.Yaml.Value

/-!
Rules files: a list of rules, or an object that holds such a list and what else a rule set needs.
A rule gives the new name or the style to derive it from.
-/

namespace Renaming

/-! ### Reading the parts of a value -/

namespace Json

/-- A text. -/
def asText : Json → Except Mismatch String
  | .str s => .ok s
  | v => .error (.invalidType v.met "a string")

/-- A list of parts. -/
def asList (part : Json → Except Mismatch α) : Json → Except Mismatch (List α)
  | .arr items => items.mapM part
  | v => .error (.invalidType v.met "a sequence")

/-- A part, or null for none. -/
def asOption (part : Json → Except Mismatch α) : Json → Except Mismatch (Option α)
  | .null => .ok none
  | v => (part v).map some

/-- One of the named values, by its name or as an object with the name as its only key. -/
def asNamed (all : List α) (name : α → String) (v : Json) : Except Mismatch α :=
  let find (s : String) : Except Mismatch α :=
    match all.find? (name · == s) with
    | some x => .ok x
    | none => .error (.unknownVariant s (all.map name))
  match v with
  | .str s => find s
  | .obj [(key, content)] => do
    let x ← find key
    match content with
    | .null => return x
    | content => throw (.invalidType content.met "unit")
  | .obj _ => .error (.invalidValue .map "map with a single key")
  | v => .error (.invalidType v.met "string or map")

end Json

/-! ### Rules as they are written -/

/-- A rule as a rules file writes it. -/
structure Entry where
  old : Option String := none
  new : Option String := none
  style : Option Style := none
  scope : Scope := .identifier
  deriving DecidableEq, Repr

namespace Entry

/-- The fields of a rule. -/
def fields : List String := ["old", "new", "case", "scope"]

/-- What a rule is called where something else stands in its place. -/
def title : String := "struct RuleEntry"

/-- The rule with a field set. -/
def set (e : Entry) (field : String) (v : Json) : Except Json.Mismatch Entry :=
  match field with
  | "old" => do return { e with old := some (← v.asText) }
  | "new" => do return { e with new := ← v.asOption Json.asText }
  | "case" => do return { e with style := ← v.asOption (Json.asNamed Style.all Style.name) }
  | "scope" => do return { e with scope := ← v.asNamed Scope.all Scope.name }
  | _ => .error (.unknownField field fields)

/-- A rule from an object with its fields, or from a list of them in order. -/
def ofJson : Json → Except Json.Mismatch Entry
  | .arr items => do
    let e ← (fields.zip items).foldlM (fun e (field, v) => e.set field v) {}
    if e.old.isNone then
      throw (.invalidLength 0 (title ++ " with " ++ toString fields.length ++ " elements"))
    if fields.length < items.length then
      throw (.invalidLength items.length "fewer elements in array")
    return e
  | .obj entries => do
    let e ← entries.foldlM (fun e (field, v) => e.set field v) {}
    if e.old.isNone then throw (.missingField "old")
    return e
  | v => .error (.invalidType v.met title)

/-- The rule that is meant, at its position. -/
def resolve (i : Nat) (e : Entry) : Except Failure Rule :=
  let old := e.old.getD ""
  match e.new, e.style with
  | some new, none => .ok ⟨old, new, e.scope⟩
  | none, some style => .ok ⟨old, style.apply old, e.scope⟩
  | some _, some _ =>
    .error (Cause.badValue (ruleKey i) (some old) "give either 'new' or 'case', not both" : Cause)
  | none, none =>
    .error (Cause.badValue (ruleKey i) (some old)
      "missing 'new' (or a 'case' to derive it)" : Cause)

end Entry

/-! ### Documents -/

/-- A rules file. -/
structure Document where
  rules : Option (List Entry) := none
  guarded : List String := []
  extensions : Option (List String) := none
  excluded : Option (List String) := none
  deriving DecidableEq, Repr

namespace Document

/-- The fields of a rules file. -/
def fields : List String := ["rules", "protected", "extensions", "exclude"]

/-- The rules file with a field set. -/
def set (d : Document) (field : String) (v : Json) : Except Json.Mismatch Document :=
  match field with
  | "rules" => do return { d with rules := some (← v.asList Entry.ofJson) }
  | "protected" => do return { d with guarded := ← v.asList Json.asText }
  | "extensions" => do return { d with extensions := ← v.asOption (Json.asList Json.asText) }
  | "exclude" => do return { d with excluded := ← v.asOption (Json.asList Json.asText) }
  | _ => .error (.unknownField field fields)

/-- A rules file from its value. -/
def ofJson (v : Json) : Except Unreadable Document :=
  match v with
  | .arr _ => do
    match v.asList Entry.ofJson with
    | .ok rules => return { rules := some rules }
    | .error reason => throw (.shape reason)
  | .obj entries =>
    match entries.foldlM (fun (d : Document) (field, v) => d.set field v) {} with
    | .error reason => .error (.shape reason)
    | .ok d => if d.rules.isNone then .error (.shape (.missingField "rules")) else .ok d
  | _ => .error .noRules

/-- The rule set that is meant. -/
def resolve (d : Document) : Except Failure RuleSet := do
  let rules ← (d.rules.getD []).zipIdx.mapM fun (e, i) => e.resolve i
  let s ← RuleSet.ofRules rules d.guarded
  return { s with extensions := d.extensions, excluded := d.excluded }

end Document

/-! ### Formats -/

/-- The formats of rules files. -/
inductive Format
  | json
  | yaml
  deriving DecidableEq, Repr

/-- The format that the extension of a file tells. -/
def Format.ofPath? (path : String) : Option Format :=
  match Path.extension? path with
  | some "json" => some .json
  | some "yaml" | some "yml" => some .yaml
  | _ => none

/-- The value of a text in a format. -/
def Format.read (f : Format) (text : String) : Except Unreadable Json :=
  match f with
  | .json => (Json.read text.toList).mapError (.json · text.toList)
  | .yaml => (Yaml.read text.toList).mapError .yaml

/-- The rule set that a text describes; `origin` names the text in a failure. -/
def RuleSet.parse (text : String) (f : Format) (origin : String) : Except Failure RuleSet :=
  match (f.read text).bind Document.ofJson with
  | .error why => .error (Cause.unreadableRules origin why : Cause)
  | .ok d => d.resolve

/-- A rule as a rules file may write it. -/
def Rule.toJson (r : Rule) : Json :=
  .obj [("old", .str r.old), ("new", .str r.new), ("scope", .str r.scope.name)]

end Renaming
