import Renaming.Proofs.Rename.Again
import Renaming.Proofs.Rename.Inverse
import Renaming.Proofs.Rename.Skipped

/-!
A second renaming with plain names. When no conflict of the rules blocks, it finds nothing to do,
and it skips the same protected places as the first one, in the same order and with the same lines:
`rename_twice`.

The places before and after the first renaming are matched one by one. A place that was renamed has
no rule any more, because a rule for its new name would be in conflict with the one that wrote it;
all other places are judged as they were.
-/

namespace Renaming

open Renaming.Source

section

variable {rules : List Rule} {guarded : List String} {s s' : Site}

/-! ### A place that has had its turn -/

theorem select?_eq_none_of_renamed (hp : Peaceful guarded rules) {i : Nat} {r : Rule}
    (hr : Chosen rules s i r) (hname : s'.name = r.new)
    (hadmits : ∀ scope : Scope, scope.admits s' = scope.admits s) : select? rules s' = none := by
  obtain ⟨hi, -, hadm⟩ := hr.1
  refine select?_eq_none_iff.2 fun q hq hold => ?_
  rw [Bool.eq_false_iff]
  intro hadm'
  rw [hadmits] at hadm'
  exact hp.chain r (List.mem_of_getElem? hi) q hq (Scope.overlaps_of_admits hadm hadm')
    (hname.symm.trans hold.symm)

theorem verdict_again (hp : Peaceful guarded rules) (hfit : ∀ r ∈ rules, r.old ≠ r.new)
    (hname : s'.name = nameAfter rules guarded s)
    (hadmits : ∀ scope : Scope, scope.admits s' = scope.admits s) :
    (verdict rules guarded (.place s')).rule? = none ∧
      (verdict rules guarded (.place s')).skipName? =
        (verdict rules guarded (.place s)).skipName? := by
  rcases nameAfter_cases s with hs | ⟨i, r, hr, hg, hs⟩
  · have hname := hname.trans hs
    have hsel : select? rules s' = select? rules s := select?_congr hname fun r _ _ => hadmits r.scope
    cases hq : select? rules s with
    | none => simp [verdict, hsel, hq, Verdict.rule?, Verdict.skipName?]
    | some q =>
      obtain ⟨r, i⟩ := q
      have hr := chosen_of_select? hq
      have hg : s.name ∈ guarded := by
        -- an unprotected place with a rule does not keep its name
        refine Decidable.byContradiction fun hg => ?_
        rw [nameAfter_of_chosen hr hg] at hs
        exact hfit r (List.mem_of_getElem? hr.1.1) (hr.1.2.1.trans hs.symm)
      simp [verdict, hsel, hq, hname, hg, Verdict.rule?, Verdict.skipName?]
  · have hsel := select?_eq_none_of_renamed hp hr (hname.trans hs) hadmits
    have hsel' := select?_eq_some_iff.2 hr
    simp [verdict, hsel, hsel', hg, Verdict.rule?, Verdict.skipName?]

end

/-! ### A source that has had its turn -/

theorem hits_rename_of_quiet {rules : List Rule} {guarded : List String} {source : String}
    (h : ∀ f ∈ fragmentsOf source.toList, (verdict rules guarded f).rule? = none) :
    (rename rules guarded source).hits = List.replicate rules.length 0 := by
  rw [hits_rename, map_rule_editsOf, List.filterMap_eq_nil_iff.2 h]
  simp

theorem feed_notMem_of_isPlainName {name : String} (h : isPlainName name = true) :
    '\n' ∉ name.toList := by
  simp only [isPlainName, Bool.and_eq_true] at h
  intro hmem
  have := (isName_of_isLetterName h.1.1).1.isIdentifier _ hmem
  cases this

theorem again_of_matches {rules : List Rule} {guarded : List String}
    (hp : Peaceful guarded rules) (hfit : ∀ r ∈ rules, r.old ≠ r.new)
    (hplain : ∀ r ∈ rules, isPlainName r.old = true ∧ isPlainName r.new = true)
    {f f' : Fragment} (h : f.Matches Eq (nameAfter rules guarded) f') :
    (verdict rules guarded f').rule? = none ∧
      (verdict rules guarded f).skipName? = (verdict rules guarded f').skipName? ∧
      feeds f.text = feeds f'.text := by
  have hmatches := h
  cases h with
  | kept t => exact ⟨rfl, rfl, rfl⟩
  | @place s s' hname =>
    obtain ⟨hrule, hskip⟩ := verdict_again hp hfit hname (admits_of_matches hmatches)
    refine ⟨hrule, hskip.symm, ?_⟩
    have hfeeds : feeds (nameAfter rules guarded s).toList = feeds s.name.toList := by
      rcases nameAfter_cases s with hs | ⟨i, r, hr, -, hs⟩
      · rw [hs]
      · obtain ⟨hold, hnew⟩ := hplain r (List.mem_of_getElem? hr.1.1)
        rw [hs, ← hr.1.2.1, feeds_eq_zero (feed_notMem_of_isPlainName hnew),
          feeds_eq_zero (feed_notMem_of_isPlainName hold)]
    simp only [Fragment.text, hname, hfeeds]

/-- **A second renaming** with plain names and without conflicts that block finds nothing to do, and
it skips what the first one skipped. -/
theorem rename_twice {rules : List Rule} {extra : List String} {set : RuleSet}
    (hset : RuleSet.ofRules rules extra = .ok set) (guarded : List String)
    (hplain : ∀ r ∈ set.rules, isPlainName r.old = true ∧ isPlainName r.new = true)
    (hconf : ∀ c ∈ conflicts guarded.contains set.rules, c.blocks = false) (source : String) :
    let once := rename set.rules guarded source
    let twice := rename set.rules guarded once.text
    twice.occurrences = 0 ∧ twice.hits = List.replicate set.rules.length 0 ∧
      twice.skipped = once.skipped := by
  intro once twice
  obtain ⟨hunfit, rfl⟩ := RuleSet.ofRules_eq_ok_iff.1 hset
  have hp := Peaceful.of_conflicts hunfit hconf
  have hfit : ∀ r ∈ rules, r.old ≠ r.new :=
    fun r hr => (Rule.unfit?_eq_none_iff.1 (hunfit r hr)).2.1
  have htame : ∀ r ∈ rules, r.old ∉ guarded → r.Tame Eq :=
    fun r hr _ => Rule.tame_of_isPlainName (hplain r hr).1 (hplain r hr).2
  have hletter : ∀ r ∈ rules, startsWithLetter r.old.toList = true := by
    intro r hr
    have hold := (hplain r hr).1
    simp only [isPlainName, Bool.and_eq_true] at hold
    exact (isName_of_isLetterName hold.1.1).2
  have hagain := (matches_rename coherent_eq htame hletter source).imp
    fun _ _ h => again_of_matches hp hfit hplain h
  have hquiet : ∀ f' ∈ fragmentsOf once.text.toList, (verdict rules guarded f').rule? = none := by
    intro f' hf'
    obtain ⟨f, hf⟩ := exists_of_forall₂ hagain hf'
    exact hf.1
  refine ⟨(rename_eq_of_quiet hquiet).1, hits_rename_of_quiet hquiet, ?_⟩
  calc twice.skipped = skipsFrom rules guarded 1 (fragmentsOf once.text.toList) :=
        skipped_rename once.text
    _ = skipsFrom rules guarded 1 (fragmentsOf source.toList) :=
        (skipsFrom_congr (hagain.imp fun _ _ h => h.2) 1).symm
    _ = once.skipped := (skipped_rename source).symm

/-- Rules of all four scopes over three lines, of which one is kept from its places. -/
theorem rename_twice_all_scopes : ∃ set, RuleSet.ofRules
      [⟨"userId", "accountId", .identifier⟩, ⟨"label", "title", .jsxAttribute⟩,
        ⟨"color", "tint", .objectKey⟩, ⟨"draft", "pending", .stringLiteral⟩] [] = .ok set ∧
    (∀ r ∈ set.rules, isPlainName r.old = true ∧ isPlainName r.new = true) ∧
    (∀ c ∈ conflicts ["color"].contains set.rules, c.blocks = false) ∧
    let once := rename set.rules ["color"]
      "<Row label='draft'\n n=\x7b\x7b color: userId / 2,\n 'color': 1 \x7d\x7d />"
    let twice := rename set.rules ["color"] once.text
    once.occurrences = 3 ∧ once.skipped = [⟨"color", 2⟩, ⟨"color", 3⟩] ∧
      twice.occurrences = 0 ∧ twice.hits = List.replicate set.rules.length 0 ∧
      twice.skipped = once.skipped := by
  have hset : RuleSet.ofRules
      [⟨"userId", "accountId", .identifier⟩, ⟨"label", "title", .jsxAttribute⟩,
        ⟨"color", "tint", .objectKey⟩, ⟨"draft", "pending", .stringLiteral⟩] [] =
      .ok { rules := _, extra := [] } := rfl
  refine ⟨_, hset, by decide, by decide, by decide +kernel, by decide +kernel, ?_⟩
  exact rename_twice hset ["color"] (by decide) (by decide) _

end Renaming
