import Renaming.Failure
import Renaming.Rule.Conflict
import Renaming.Rule.Protected

/-!
Rule sets: rules that are fit to be applied, with the names they must not touch.
-/

namespace Renaming

/-! ### Fitness of a rule -/

/-- What makes a rule unfit. -/
inductive Unfit
  | emptyName
  | unchanged (name : String)
  | quoting (name : String)
  | noIdentifier (name : String)
  deriving DecidableEq, Repr

/-- The words for what makes a rule unfit. -/
def Unfit.message : Unfit → String
  | emptyName => "old and new names must be non-empty"
  | unchanged name => "rule renames '" ++ name ++ "' to itself"
  | quoting name => "'" ++ name ++ "' contains quote, backslash or newline characters"
  | noIdentifier name => "'" ++ name ++ "' is not a valid identifier"

/-- Whether a text can stand between quotes of any kind without an escape. -/
def isPlainText (name : String) : Bool :=
  name.toList.all fun c => !"'\"\x60\\\n\r".toList.contains c

/-- What makes a name unfit for a scope: strings may hold any text that needs no escape, and all
other places hold identifiers. -/
def Scope.unfit? (scope : Scope) (name : String) : Option Unfit :=
  match scope with
  | .stringLiteral => if isPlainText name then none else some (.quoting name)
  | _ => if Source.isIdentifierName name then none else some (.noIdentifier name)

/-- What makes a rule unfit, if anything does. -/
def Rule.unfit? (r : Rule) : Option Unfit :=
  if r.old.isEmpty || r.new.isEmpty then some .emptyName
  else if r.old = r.new then some (.unchanged r.old)
  else r.scope.unfit? r.old <|> r.scope.unfit? r.new

/-- The scope with a name, or the failure for a name that no scope has. -/
def Scope.named (name : String) : Except Failure Scope :=
  match Scope.ofName? name with
  | some scope => .ok scope
  | none =>
    .error (Cause.badValue "scope" (some name)
      ("Unknown scope '" ++ name ++ "'. Use: " ++ ", ".intercalate (Scope.all.map Scope.name)) :
      Cause)

/-! ### Rule sets -/

/-- Rules, and what a rules file says besides them. -/
structure RuleSet where
  rules : List Rule
  /-- The names that are protected besides the built-in ones. -/
  extra : List String := []
  /-- The extensions of the files to rename in, if they are given. -/
  extensions : Option (List String) := none
  /-- The directories to pass over, if they are given. -/
  excluded : Option (List String) := none
  /-- The file that the rules come from. -/
  source : Option String := none
  deriving DecidableEq, Repr

/-- The key under which the rule at a position is reported. -/
def ruleKey (i : Nat) : String := "rules[" ++ toString i ++ "]"

namespace RuleSet

/-- A rule set of fit rules; the first rule that is unfit is reported. -/
def ofRules (rules : List Rule) (extra : List String) : Except Failure RuleSet :=
  match rules.zipIdx.findSome? fun (r, i) => (r.unfit?).map fun u => (r, i, u) with
  | some (r, i, u) => .error (Cause.badValue (ruleKey i) (some r.label) u.message : Cause)
  | none => .ok { rules, extra }

/-- The rule set with more protected names. -/
def protect (s : RuleSet) (names : List String) : RuleSet := { s with extra := s.extra ++ names }

/-- The protected names. -/
def guarded (s : RuleSet) : List String := builtinNames ++ s.extra

/-- The number of protected names. -/
def guardedCount (s : RuleSet) : Nat := s.guarded.eraseDups.length

/-- The protected names that are not built in, in order. -/
def extraNames (s : RuleSet) : List String :=
  ((s.extra.filter (!builtinNames.contains ·)).eraseDups).mergeSort fun a b => decide (a ≤ b)

/-- The conflicts of the rules. -/
def conflicts (s : RuleSet) : List Conflict := Renaming.conflicts s.guarded.contains s.rules

/-- The names of the rules in a report. -/
def labels (s : RuleSet) : List String := s.rules.map Rule.describe

end RuleSet

end Renaming
