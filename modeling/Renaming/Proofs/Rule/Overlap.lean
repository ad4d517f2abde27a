import Renaming.Proofs.Rule.Conflict
import Renaming.Proofs.Rule.Grounds
import Renaming.Proofs.Source.Occurrence

/-!
What it means that two scopes overlap. The table of the scopes that do is exact: two scopes overlap
just when some place of some source lies in both (`Scope.overlaps_iff_meet`). It is sound since a
colon and an assignment do not both follow a place, and complete by one source for each pair of
scopes. So a pair of rules that is left out of the search for conflicts never meets at a place, and
for all other pairs the names alone decide (`Noticed`).
-/

namespace Renaming

open Renaming.Source

/-! ### Scopes that meet -/

/-- Some place of some source lies in both scopes. -/
def Scope.Meet (a b : Scope) : Prop :=
  ∃ source start stop site, Occurs source start stop site ∧
    a.admits site = true ∧ b.admits site = true

theorem Scope.Meet.overlaps {a b : Scope} (h : a.Meet b) : a.overlaps b = true := by
  obtain ⟨-, -, -, site, -, ha, hb⟩ := h
  exact Scope.overlaps_of_admits ha hb

/-- A name in front of a colon at the start of a source: a word of the code, and a key. -/
def keySite : Site := ⟨"a", true, [], ": 1".toList⟩

/-- A quoted name there: a string, and a key. -/
def quotedSite : Site := ⟨"a", false, [], ": 1".toList⟩

/-- A name in a tag: a word of the code, and the name of an attribute. -/
def attributeSite : Site := ⟨"c", true, Piece.marks ⟨.code, " b a<".toList⟩, "=1".toList⟩

theorem Scope.admits_of_overlaps {a b : Scope} (h : a.overlaps b = true) :
    ∃ s ∈ [keySite, quotedSite, attributeSite], a.admits s = true ∧ b.admits s = true := by
  revert h
  cases a <;> cases b <;> decide

theorem exists_source : ∀ s ∈ [keySite, quotedSite, attributeSite],
    ∃ source ∈ ["a: 1", "'a': 1", "<a b c=1"], .place s ∈ fragmentsOf source.toList := by
  decide +kernel

theorem Scope.overlaps_iff_meet {a b : Scope} : a.overlaps b = true ↔ a.Meet b := by
  refine ⟨fun h => ?_, Meet.overlaps⟩
  obtain ⟨site, hsite, ha, hb⟩ := Scope.admits_of_overlaps h
  obtain ⟨source, -, hmem⟩ := exists_source site hsite
  obtain ⟨start, stop, hs⟩ := occurs_of_mem hmem
  exact ⟨_, start, stop, site, hs, ha, hb⟩

/-! ### Conflicts between rules that meet -/

/-- The conflicts that the names of a rule `a` and of a later rule `b` make, whatever their scopes
are. Two rules for one name in two scopes are none: where both scopes hold a place, the more specific
one is used. -/
structure Noticed (guarded : String → Bool) (rules : List Rule) (a b : Rule) : Prop where
  /-- Both are for one name, in one scope. -/
  duplicate : a.old = b.old → a.scope = b.scope →
    Conflict.duplicateSource a b ∈ conflicts guarded rules
  /-- Both write one name, in the place of two. -/
  colliding : a.old ≠ b.old → a.new = b.new → Conflict.collidingTarget a b ∈ conflicts guarded rules
  /-- Each writes the name that the other one is for. -/
  inverse : a.old = b.new → a.new = b.old → Conflict.inversePair a b ∈ conflicts guarded rules
  /-- The first one writes a name that the second one is for. -/
  feeds : a.old ≠ b.new → a.new = b.old → Conflict.chain a b ∈ conflicts guarded rules
  /-- The second one writes a name that the first one is for. -/
  fed : a.old = b.new → a.new ≠ b.old → Conflict.chain b a ∈ conflicts guarded rules

theorem Conflict.Rests.mem {guarded : String → Bool} {rules : List Rule} {g : Ground}
    {c : Conflict} (h : Rests guarded rules g c) : c ∈ conflicts guarded rules := by
  rw [← map_snd_grounded]
  exact List.mem_map_of_mem (mem_grounded_iff.2 h)

/-- **Overlapping scopes.** The scopes that overlap are exactly those of which some place of some
source lies in both. Of rules with scopes that meet at a place no pair is left out of the search for
conflicts: all that their names give rise to is listed. -/
theorem overlaps_exact (a b : Scope) (guarded : String → Bool) (rules : List Rule) :
    (a.overlaps b = true ↔ a.Meet b) ∧
      ∀ (i j : Nat) (r q : Rule), i < j → rules[i]? = some r → rules[j]? = some q →
        r.scope.Meet q.scope → Noticed guarded rules r q := by
  refine ⟨Scope.overlaps_iff_meet, fun i j r q hij hr hq hmeet => ?_⟩
  have h : Conflict.Meet rules i j r q := ⟨hij, hr, hq, hmeet.overlaps⟩
  exact {
    duplicate := fun hold hscope => (Conflict.Rests.duplicateSource h hold hscope).mem
    colliding := fun hold hnew => (Conflict.Rests.collidingTarget h hold hnew).mem
    inverse := fun hold hnew => (Conflict.Rests.inversePair h hold hnew).mem
    feeds := fun hold hnew => (Conflict.Rests.chain h (fun hboth => hold hboth.1) hnew).mem
    fed := fun hold hnew => (Conflict.Rests.chainBack h (fun hboth => hnew hboth.2) hold.symm).mem }

/-- A rule for words that writes the name of a key, and the rule for the key. -/
theorem overlaps_exact_wordFeedsKey :
    let rules : List Rule := [⟨"userId", "id", .identifier⟩, ⟨"id", "key", .objectKey⟩]
    (Scope.identifier.overlaps .objectKey = true ↔ Scope.identifier.Meet .objectKey) ∧
      0 < 1 ∧ rules[0]? = some ⟨"userId", "id", .identifier⟩ ∧
      rules[1]? = some ⟨"id", "key", .objectKey⟩ ∧ Scope.identifier.Meet .objectKey ∧
      Noticed (fun _ => false) rules ⟨"userId", "id", .identifier⟩ ⟨"id", "key", .objectKey⟩ := by
  intro rules
  obtain ⟨hiff, hnoticed⟩ := overlaps_exact .identifier .objectKey (fun _ => false) rules
  have hmeet := hiff.1 rfl
  exact ⟨hiff, by decide, rfl, rfl, hmeet, hnoticed 0 1 _ _ (by decide) rfl rfl hmeet⟩

end Renaming
