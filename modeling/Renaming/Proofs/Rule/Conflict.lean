import Renaming.Proofs.Source.Alike
import Renaming.Rule.Set

/-!
Rule sets without conflicts. `Peaceful` says what rules have to do with each other when no conflict
keeps a run from writing.

* `RuleSet.ofRules_eq_ok_iff`: a rule set holds rules that are fit.
* `RuleSet.peaceful`: when none of its conflicts blocks, its rules are peaceful.
* `Scope.overlaps_of_admits`: two scopes overlap when a place lies in both.
-/

namespace Renaming

open Renaming.Source

/-! ### Scopes that hold one place -/

theorem assignmentFollows_of_colonFollows {after : List Char} (h : colonFollows after = true) :
    assignmentFollows after = false := by
  unfold colonFollows at h
  unfold assignmentFollows
  split at h
  · next hs =>
    rw [hs]
    rfl
  · next hs =>
    rw [hs]
    rfl
  · cases h

theorem Source.Site.isAttribute_of_isKey {s : Site} (h : s.isKey = true) : s.isAttribute = false := by
  simp only [Site.isKey, Bool.and_eq_true] at h
  simp [Site.isAttribute, assignmentFollows_of_colonFollows h.1]

/-- Two scopes overlap when a place lies in both. -/
theorem Scope.overlaps_of_admits {a b : Scope} {s : Site} (ha : a.admits s = true)
    (hb : b.admits s = true) : a.overlaps b = true := by
  have hkey : s.isKey = true → s.isAttribute = true → False := by
    intro hk hat
    rw [Site.isAttribute_of_isKey hk] at hat
    cases hat
  cases a <;> cases b <;> simp_all [Scope.admits, Scope.overlaps]

theorem Scope.overlaps_self (a : Scope) : a.overlaps a = true := by cases a <;> rfl

/-! ### Fit rules -/

theorem RuleSet.ofRules_eq_ok_iff {rules : List Rule} {extra : List String} {set : RuleSet} :
    RuleSet.ofRules rules extra = .ok set ↔
      (∀ r ∈ rules, r.unfit? = none) ∧ set = { rules, extra } := by
  have hnone : (rules.zipIdx.findSome? fun e => e.1.unfit?.map fun u => (e.1, e.2, u)) = none ↔
      ∀ r ∈ rules, r.unfit? = none := by
    rw [List.findSome?_eq_none_iff]
    constructor
    · intro h r hr
      obtain ⟨i, hi⟩ := List.mem_iff_getElem?.1 hr
      simpa using h (r, i) (List.mem_zipIdx_iff_getElem?.2 hi)
    · rintro h ⟨r, i⟩ hr
      simpa using h r (List.mem_of_getElem? (List.mem_zipIdx_iff_getElem?.1 hr))
  rw [RuleSet.ofRules, ← hnone]
  split
  · next hs => simp [hs]
  · next hs =>
    rw [Except.ok.injEq]
    exact ⟨fun h => ⟨hs, h.symm⟩, fun h => h.2.symm⟩

/-- What a fit rule is. -/
theorem Rule.unfit?_eq_none_iff {r : Rule} : r.unfit? = none ↔
    (r.old ≠ "" ∧ r.new ≠ "") ∧ r.old ≠ r.new ∧ r.scope.unfit? r.old = none ∧
      r.scope.unfit? r.new = none := by
  unfold Rule.unfit?
  split
  · next h => simp_all [Classical.or_iff_not_imp_left]
  · next h =>
    split
    · next h' => simp [h']
    · next h' => simp_all

theorem Scope.isName_of_unfit? {scope : Scope} {name : String} (h : scope.unfit? name = none)
    (hs : scope ≠ .stringLiteral) : IsName name.toList := by
  rw [← isName_iff]
  cases scope with
  | stringLiteral => exact absurd rfl hs
  | _ => simpa [Scope.unfit?] using h

theorem not_needsEscape_of_isPlainText {name : String} (h : isPlainText name = true) :
    ∀ c ∈ name.toList, needsEscape c = false := by
  intro c hc
  have hplain := List.all_eq_true.1 h c hc
  rw [Bool.eq_false_iff]
  intro he
  simp only [needsEscape, isQuote, Bool.or_eq_true, beq_iff_eq] at he
  rcases he with (((rfl | rfl) | rfl) | rfl) | rfl <;> revert hplain <;> decide

/-- A fit rule has names, unless it is for strings. -/
theorem Rule.isName_of_fit {r : Rule} (h : r.unfit? = none) (hs : r.scope ≠ .stringLiteral) :
    IsName r.old.toList ∧ IsName r.new.toList := by
  obtain ⟨-, -, hold, hnew⟩ := Rule.unfit?_eq_none_iff.1 h
  exact ⟨Scope.isName_of_unfit? hold hs, Scope.isName_of_unfit? hnew hs⟩

/-- The names and texts of a fit rule need no escape. -/
theorem Rule.plain_of_fit {r : Rule} (h : r.unfit? = none) :
    (∀ c ∈ r.old.toList, needsEscape c = false) ∧ ∀ c ∈ r.new.toList, needsEscape c = false := by
  by_cases hs : r.scope = .stringLiteral
  · obtain ⟨-, -, hold, hnew⟩ := Rule.unfit?_eq_none_iff.1 h
    rw [hs] at hold hnew
    exact ⟨not_needsEscape_of_isPlainText (by simpa [Scope.unfit?] using hold),
      not_needsEscape_of_isPlainText (by simpa [Scope.unfit?] using hnew)⟩
  · obtain ⟨hold, hnew⟩ := Rule.isName_of_fit h hs
    exact ⟨fun c hc => needsEscape_of_isIdentifier (hold.isIdentifier c hc),
      fun c hc => needsEscape_of_isIdentifier (hnew.isIdentifier c hc)⟩

/-! ### Rules without conflicts -/

/-- No conflict between rules keeps a run from writing. -/
structure Peaceful (guarded : List String) (rules : List Rule) : Prop where
  /-- What one rule writes is renamed by none of them. -/
  chain : ∀ a ∈ rules, ∀ b ∈ rules, a.scope.overlaps b.scope = true → a.new ≠ b.old
  /-- Two names do not become one. -/
  target : ∀ a ∈ rules, ∀ b ∈ rules, a.scope.overlaps b.scope = true → a.new = b.new → a.old = b.old
  /-- A name in a scope has one rule. -/
  source : ∀ a ∈ rules, ∀ b ∈ rules, a.old = b.old → a.scope = b.scope → a = b
  /-- No protected name is written. -/
  unguarded : ∀ a ∈ rules, a.new ∉ guarded

namespace Conflict

theorem blocks_of_mem_between {a b : Rule} {c : Conflict} (h : c ∈ between a b) :
    c.blocks = true := by
  unfold between at h
  split at h
  · simp at h
  · rw [List.mem_append, List.mem_append] at h
    rcases h with (h | h) | h
    · split at h
      · rw [List.mem_singleton.1 h]
        rfl
      · simp at h
    · split at h
      · rw [List.mem_singleton.1 h]
        rfl
      · simp at h
    · split at h
      · rw [List.mem_singleton.1 h]
        rfl
      · rw [List.mem_append] at h
        rcases h with h | h <;> split at h
        · rw [List.mem_singleton.1 h]
          rfl
        · simp at h
        · rw [List.mem_singleton.1 h]
          rfl
        · simp at h

theorem blocks_of_mem_ofPairs {rules : List Rule} {c : Conflict} (h : c ∈ ofPairs rules) :
    c.blocks = true := by
  induction rules with
  | nil => simp [ofPairs] at h
  | cons a rest ih =>
    rcases List.mem_append.1 h with h | h
    · obtain ⟨b, -, hc⟩ := List.mem_flatMap.1 h
      exact blocks_of_mem_between hc
    · exact ih h

theorem ofPairs_eq_nil_iff {rules : List Rule} :
    ofPairs rules = [] ↔ rules.Pairwise fun a b => between a b = [] := by
  induction rules with
  | nil => simp [ofPairs]
  | cons a rest ih => rw [ofPairs, List.append_eq_nil_iff, List.flatMap_eq_nil_iff,
      List.pairwise_cons, ih]

/-- What two rules without a conflict between them have to do with each other. -/
theorem of_between_eq_nil {a b : Rule} (h : between a b = [])
    (ho : a.scope.overlaps b.scope = true) :
    ¬ (a.old = b.old ∧ a.scope = b.scope) ∧ (a.new = b.new → a.old = b.old) ∧ a.new ≠ b.old ∧
      b.new ≠ a.old := by
  unfold between at h
  simp only [ho, Bool.not_true, Bool.false_eq_true, if_false, List.append_eq_nil_iff,
    ite_eq_right_iff, List.cons_ne_nil, imp_false] at h
  obtain ⟨⟨h1, h2⟩, h3⟩ := h
  refine ⟨h1, fun hn => Decidable.byContradiction fun ho => h2 ⟨ho, hn⟩, ?_⟩
  split at h3
  · cases h3
  · rw [List.append_eq_nil_iff] at h3
    simpa using h3

end Conflict

theorem Peaceful.of_pairwise {guarded : List String} {rules : List Rule}
    (hfit : ∀ r ∈ rules, r.old ≠ r.new)
    (h : rules.Pairwise fun a b => Conflict.between a b = [])
    (hg : ∀ r ∈ rules, r.new ∉ guarded) : Peaceful guarded rules := by
  have hpair : ∀ a ∈ rules, ∀ b ∈ rules, a = b ∨ Conflict.between a b = [] ∨
      Conflict.between b a = [] := by
    intro a ha b hb
    obtain ⟨i, hi, rfl⟩ := List.mem_iff_getElem.1 ha
    obtain ⟨j, hj, rfl⟩ := List.mem_iff_getElem.1 hb
    rcases Nat.lt_trichotomy i j with hij | rfl | hij
    · exact .inr (.inl (List.pairwise_iff_getElem.1 h i j hi hj hij))
    · exact .inl rfl
    · exact .inr (.inr (List.pairwise_iff_getElem.1 h j i hj hi hij))
  refine ⟨fun a ha b hb ho => ?_, fun a ha b hb ho hn => ?_, fun a ha b hb hn hs => ?_, hg⟩
  · rcases hpair a ha b hb with rfl | hc | hc
    · exact (hfit a ha).symm
    · exact (Conflict.of_between_eq_nil hc ho).2.2.1
    · exact (Conflict.of_between_eq_nil hc (by rwa [Scope.overlaps_comm])).2.2.2
  · rcases hpair a ha b hb with rfl | hc | hc
    · rfl
    · exact (Conflict.of_between_eq_nil hc ho).2.1 hn
    · exact ((Conflict.of_between_eq_nil hc (by rwa [Scope.overlaps_comm])).2.1 hn.symm).symm
  · rcases hpair a ha b hb with rfl | hc | hc
    · rfl
    · exact absurd ⟨hn, hs⟩ (Conflict.of_between_eq_nil hc (by rw [hs, Scope.overlaps_self])).1
    · exact absurd ⟨hn.symm, hs.symm⟩
        (Conflict.of_between_eq_nil hc (by rw [hs, Scope.overlaps_self])).1

/-- Fit rules without conflicts that block are peaceful. -/
theorem Peaceful.of_conflicts {guarded : List String} {rules : List Rule}
    (hfit : ∀ r ∈ rules, r.unfit? = none)
    (hconf : ∀ c ∈ conflicts guarded.contains rules, c.blocks = false) : Peaceful guarded rules := by
  have hnone : Conflict.ofPairs rules = [] := by
    refine List.eq_nil_iff_forall_not_mem.2 fun c hc => ?_
    have := hconf c (List.mem_append_left _ hc)
    rw [Conflict.blocks_of_mem_ofPairs hc] at this
    cases this
  refine .of_pairwise (fun r hr => (Rule.unfit?_eq_none_iff.1 (hfit r hr)).2.1)
    (Conflict.ofPairs_eq_nil_iff.1 hnone) fun r hr hg => ?_
  have hmem : Conflict.protectedTarget r ∈ conflicts guarded.contains rules := by
    refine List.mem_append_right _ (List.mem_flatMap.2 ⟨r, hr, List.mem_append_right _ ?_⟩)
    simp [hg]
  have := hconf _ hmem
  cases this

/-- **Rules without conflicts** that block are peaceful. -/
theorem RuleSet.peaceful {rules : List Rule} {extra : List String} {set : RuleSet}
    (hset : RuleSet.ofRules rules extra = .ok set)
    (hconf : ∀ c ∈ set.conflicts, c.blocks = false) : Peaceful set.guarded set.rules := by
  obtain ⟨hfit, rfl⟩ := RuleSet.ofRules_eq_ok_iff.1 hset
  exact .of_conflicts hfit hconf

end Renaming
