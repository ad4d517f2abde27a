import Renaming.Source.Site

/-!
Rules: an old name, the name that takes its place, and the scope in which it does.
-/

namespace Renaming

open Renaming.Source

/-! ### Scopes -/

/-- Where in a source a rule may rename. -/
inductive Scope
  /-- Any word of the code. -/
  | identifier
  /-- The name of an attribute inside a tag. -/
  | jsxAttribute
  /-- A key of an object or a field of a type, also a quoted one. -/
  | objectKey
  /-- A string whose whole content is the name. -/
  | stringLiteral
  deriving DecidableEq, Repr

namespace Scope

/-- All scopes, in the order of their names. -/
def all : List Scope := [identifier, jsxAttribute, objectKey, stringLiteral]

/-- The name of a scope in a rules file. -/
def name : Scope → String
  | identifier => "identifier"
  | jsxAttribute => "jsx_attribute"
  | objectKey => "object_key"
  | stringLiteral => "string_literal"

/-- The scope with a name. -/
def ofName? (s : String) : Option Scope := all.find? (·.name == s)

theorem ofName?_name (s : Scope) : ofName? s.name = some s := by cases s <;> decide

/-- The scopes from the most to the least specific: of two rules for one name the one whose scope
comes first here is used. -/
def precedence : List Scope := [stringLiteral, objectKey, jsxAttribute, identifier]

/-- Whether a place lies in a scope. -/
def admits (scope : Scope) (s : Site) : Bool :=
  match scope with
  | identifier => s.inCode
  | jsxAttribute => s.inCode && s.isAttribute
  | objectKey => s.isKey
  | stringLiteral => !s.inCode

/-- Whether some place can lie in both scopes. -/
def overlaps : Scope → Scope → Bool
  | identifier, stringLiteral | stringLiteral, identifier => false
  | jsxAttribute, stringLiteral | stringLiteral, jsxAttribute => false
  | jsxAttribute, objectKey | objectKey, jsxAttribute => false
  | _, _ => true

theorem overlaps_comm (a b : Scope) : a.overlaps b = b.overlaps a := by
  cases a <;> cases b <;> rfl

end Scope

/-! ### Rules -/

/-- A rule: the name `old` becomes the name `new` wherever it stands in the scope. -/
structure Rule where
  old : String
  new : String
  scope : Scope := .identifier
  deriving DecidableEq, Repr

namespace Rule

/-- The two names of a rule. -/
def label (r : Rule) : String := r.old ++ "->" ++ r.new

/-- The two names of a rule, and its scope unless that is the widest one. -/
def describe (r : Rule) : String :=
  match r.scope with
  | .identifier => r.label
  | scope => r.label ++ " [" ++ scope.name ++ "]"

/-- The rule that renames back. -/
def inverse (r : Rule) : Rule := { r with old := r.new, new := r.old }

@[simp] theorem inverse_inverse (r : Rule) : r.inverse.inverse = r := rfl

end Rule

end Renaming
