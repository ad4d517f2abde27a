import Renaming.Rule.Basic

/-!
Conflicts: pairs of rules after which a second run would rename again, or which cannot be undone,
and rules that touch protected names.
-/

namespace Renaming

/-- A conflict in a list of rules. -/
inductive Conflict
  /-- Two rules rename one name. -/
  | duplicateSource (a b : Rule)
  /-- Two names become one. -/
  | collidingTarget (a b : Rule)
  /-- The second rule renames what the first one writes. -/
  | chain (a b : Rule)
  /-- Two rules undo each other. -/
  | inversePair (a b : Rule)
  /-- A rule renames a protected name. -/
  | protectedSource (a : Rule)
  /-- A rule writes a protected name. -/
  | protectedTarget (a : Rule)
  deriving DecidableEq, Repr

namespace Conflict

/-- The name of the kind of a conflict. -/
def kind : Conflict → String
  | duplicateSource .. => "duplicate_source"
  | collidingTarget .. => "colliding_target"
  | chain .. => "chain"
  | inversePair .. => "inverse_pair"
  | protectedSource _ => "protected_source"
  | protectedTarget _ => "protected_target"

/-- The rules that are in conflict. -/
def rules : Conflict → List Rule
  | duplicateSource a b | collidingTarget a b | chain a b | inversePair a b => [a, b]
  | protectedSource a | protectedTarget a => [a]

/-- What is wrong. -/
def message : Conflict → String
  | duplicateSource a b =>
    "'" ++ a.old ++ "' is renamed by more than one rule (" ++ a.describe ++ " and " ++
      b.describe ++ ")"
  | collidingTarget a b =>
    "'" ++ a.old ++ "' and '" ++ b.old ++ "' would both become '" ++ a.new ++ "'"
  | chain a b =>
    a.describe ++ " feeds " ++ b.describe ++ ": a second run would rename '" ++ a.new ++ "' again"
  | inversePair a b => a.describe ++ " and " ++ b.describe ++ " undo each other"
  | protectedSource a =>
    "'" ++ a.old ++ "' is a protected API name; every occurrence will be skipped"
  | protectedTarget a =>
    "'" ++ a.old ++ "' would be renamed to the protected API name '" ++ a.new ++ "'"

/-- Whether a run that writes is refused. A rule for a protected name only leads to skips. -/
def blocks : Conflict → Bool
  | protectedSource _ => false
  | _ => true

/-- The conflicts between a rule and a later one. -/
def between (a b : Rule) : List Conflict :=
  if !a.scope.overlaps b.scope then []
  else
    (if a.old = b.old ∧ a.scope = b.scope then [duplicateSource a b] else []) ++
    (if a.old ≠ b.old ∧ a.new = b.new then [collidingTarget a b] else []) ++
    (if a.old = b.new ∧ a.new = b.old then [inversePair a b]
      else
        (if a.new = b.old then [chain a b] else []) ++
        (if b.new = a.old then [chain b a] else []))

/-- The conflicts between the rules of a list, pair by pair. -/
def ofPairs : List Rule → List Conflict
  | [] => []
  | a :: rest => rest.flatMap (between a) ++ ofPairs rest

/-- The conflicts of a rule with the protected names. -/
def ofProtected (guarded : String → Bool) (a : Rule) : List Conflict :=
  (if guarded a.old then [protectedSource a] else []) ++
  (if guarded a.new then [protectedTarget a] else [])

end Conflict

/-- All conflicts in a list of rules. -/
def conflicts (guarded : String → Bool) (rules : List Rule) : List Conflict :=
  Conflict.ofPairs rules ++ rules.flatMap (Conflict.ofProtected guarded)

end Renaming
