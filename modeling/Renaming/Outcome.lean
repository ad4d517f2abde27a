import Renaming.Rule.Basic
import Renaming.Source.Fragment

/-!
Renaming a source. Every place is looked at once, in the source as it was given, and either keeps
its name or gets a new one; what one rule has written is never read by another.
-/

namespace Renaming

open Renaming.Source

/-- The first rule for a name in a scope, with its position in the list. -/
def ruleFor? (rules : List Rule) (name : String) (scope : Scope) : Option (Rule × Nat) :=
  rules.zipIdx.find? fun (r, _) => r.old == name && r.scope == scope

/-- The rule that is used at a place, with its position: of the scopes that hold the place and
have a rule for the name, the most specific one decides. -/
def select? (rules : List Rule) (s : Site) : Option (Rule × Nat) :=
  Scope.precedence.findSome? fun scope =>
    (ruleFor? rules s.name scope).filter fun _ => scope.admits s

/-- What becomes of a fragment. -/
inductive Verdict
  /-- It stays as it is. -/
  | keep
  /-- A rule wants to rename it, but its name is protected. -/
  | skip (site : Site)
  /-- The rule at a position renames it. -/
  | rename (new : String) (rule : Nat)
  deriving DecidableEq, Repr

/-- The verdict on a fragment under rules and protected names. -/
def verdict (rules : List Rule) (guarded : List String) : Fragment → Verdict
  | .kept _ => .keep
  | .place site =>
    match select? rules site with
    | none => .keep
    | some (rule, i) => if guarded.contains site.name then .skip site else .rename rule.new i

/-- The text of a fragment after its verdict. -/
def Verdict.render (v : Verdict) (f : Fragment) : List Char :=
  match v with
  | keep | skip _ => f.text
  | rename new _ => new.toList

/-- The position of the rule that a verdict applies. -/
def Verdict.rule? : Verdict → Option Nat
  | rename _ i => some i
  | _ => none

/-- A place that kept its name because the name is protected. -/
structure Skip where
  name : String
  /-- The line, the first being line 1. -/
  line : Nat
  deriving DecidableEq, Repr

/-- The place that a verdict skips. -/
def Verdict.skip? : Verdict → Option Skip
  | skip site => some ⟨site.name, site.line⟩
  | _ => none

/-- What renaming a source gives. -/
structure Outcome where
  /-- The text after the renaming. -/
  text : String
  /-- How many places were renamed. -/
  occurrences : Nat
  /-- How many places each rule renamed, in the order of the rules. -/
  hits : List Nat
  /-- The places that a rule wanted to rename and that are protected. -/
  skipped : List Skip
  deriving DecidableEq, Repr

/-- Whether anything was renamed. -/
def Outcome.changed (o : Outcome) : Bool := 0 < o.occurrences

/-- Renames a source by all rules at once. -/
def rename (rules : List Rule) (guarded : List String) (source : String) : Outcome :=
  let parts := (fragmentsOf source.toList).map fun f => (verdict rules guarded f, f)
  let used := parts.filterMap fun (v, _) => v.rule?
  { text := String.ofList (parts.flatMap fun (v, f) => v.render f)
    occurrences := used.length
    hits := (List.range rules.length).map used.count
    skipped := parts.filterMap fun (v, _) => v.skip? }

/-- Renames a source by one rule: the new text, how many places were renamed, and the places that
are protected. -/
def renameOne (rule : Rule) (guarded : List String) (source : String) : String × Nat × List Skip :=
  let outcome := rename [rule] guarded source
  (outcome.text, outcome.occurrences, outcome.skipped)

/-- Without rules a source stays as it is. -/
theorem rename_nil (guarded : List String) (source : String) :
    rename [] guarded source = ⟨source, 0, [], []⟩ := by
  have hv : ∀ f, verdict [] guarded f = .keep := by
    intro f
    cases f with
    | kept => rfl
    | place site => simp [verdict, select?, ruleFor?, Scope.precedence]
  have ht := flatMap_text_fragmentsOf source.toList
  unfold rename
  simp [hv, Verdict.rule?, Verdict.skip?, Verdict.render, List.flatMap_map, List.filterMap_map, ht]

end Renaming
