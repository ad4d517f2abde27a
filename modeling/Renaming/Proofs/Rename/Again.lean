import Renaming.Proofs.Rename.Renamed
import Renaming.Proofs.Rule.Conflict

/-!
Renaming again. A source is stable under a rule set when a second renaming finds nothing to do
after the first. Rules that are free of conflicts are not enough for that: the names that the first
renaming writes may be words that change how the text after them is read.

* `RuleSet.KeepsContext`: the new names do not change how the text around them is read.
* `RuleSet.stable`: then every source is stable, unless a rule opens a substitution.
-/

namespace Renaming

open Renaming.Source

/-! ### What is asked of a rule set -/

namespace RuleSet

/-- A second renaming of a source finds nothing to do. -/
def Stable (set : RuleSet) (source : String) : Prop :=
  let once := rename set.rules set.guarded source
  let twice := rename set.rules set.guarded once.text
  twice.occurrences = 0 ∧ twice.text = once.text

/-- A rule of a set that can rename: its old name is not protected. -/
structure Effective (set : RuleSet) (scope : Scope) (r : Rule) : Prop where
  mem : r ∈ set.rules
  unguarded : r.old ∉ set.guarded
  scope : r.scope = scope

/-- The attribute rule `y` has no rule for the same name elsewhere. -/
def Lonely (set : RuleSet) (y : Rule) : Prop :=
  ∀ z ∈ set.rules, z.scope = .identifier → z.old ≠ y.old

/-- The new names do not change how the text around them is read, as far as it matters: no regular
expression comes or goes, nothing that has a rule is left of a name, and no attribute that has a
rule comes to light. -/
structure KeepsContext (set : RuleSet) : Prop where
  frames : ∀ r, set.Effective .stringLiteral r → Shelters r.old.toList r.new.toList
  regex : ∀ r, set.Effective .identifier r → ∀ p, Touches p r.old.toList →
    (joined p r.old ∈ regexKeywords ↔ joined p r.new ∈ regexKeywords)
  rests : ∀ r, set.Effective .identifier r → ∀ z, set.Effective .identifier z →
    startsWithLetter r.old.toList = false → startsWithLetter r.new.toList = true →
      z.old.toList ≠ r.new.toList.dropWhile isFlag
  declares : ∀ y, set.Effective .jsxAttribute y → set.Lonely y →
    ∀ r, set.Effective .identifier r → r.old ∈ declarationKeywords → r.new ∈ declarationKeywords
  returns : ∀ y, set.Effective .jsxAttribute y → set.Lonely y →
    ∀ r, set.Effective .identifier r → ∀ p, Touches p r.old.toList →
      joined p r.new = "return" → joined p r.old = "return"

/-- No rule writes the opening of a substitution into a string. -/
def OpensNothing (set : RuleSet) : Prop :=
  ∀ r, set.Effective .stringLiteral r → ¬ ['$', '{'] <:+: r.new.toList

end RuleSet

section

variable {rules : List Rule} {guarded : List String}

/-! ### Nothing to do -/

theorem rename_eq_of_quiet {source : String}
    (h : ∀ f ∈ fragmentsOf source.toList, (verdict rules guarded f).rule? = none) :
    (rename rules guarded source).occurrences = 0 ∧ (rename rules guarded source).text = source := by
  constructor
  · have hnone := List.filterMap_eq_nil_iff.2 h
    rw [occurrences_rename, ← List.length_map Edit.rule, map_rule_editsOf, hnone]
    rfl
  · rw [← String.toList_inj, text_rename]
    exact (List.flatMap_congr fun f hf => rendered_of_rule?_eq_none (h f hf)).trans
      (flatMap_text_fragmentsOf source.toList)

theorem occurrences_ne_zero {source : String} {site : Site} {i : Nat} {r : Rule}
    (hs : .place site ∈ fragmentsOf source.toList) (hr : Chosen rules site i r)
    (hg : site.name ∉ guarded) : (rename rules guarded source).occurrences ≠ 0 := by
  obtain ⟨start, stop, ho⟩ := occurs_of_mem hs
  have hmem : ⟨start, stop, i⟩ ∈ editsOf rules guarded source :=
    mem_editsOf_iff.2 ⟨site, r, ho, hg, hr⟩
  rw [occurrences_rename]
  exact List.length_pos_iff.2 (List.ne_nil_of_mem hmem) |>.ne'

/-! ### Two renamings of a place -/

/-- Only rules for all words of the code are for a word that is neither a key nor an attribute. -/
theorem Scope.eq_identifier {scope : Scope} {s : Site} (h : scope.admits s = true)
    (hcode : s.inCode = true) (hkey : s.isKey = false) (hattr : s.isAttribute = false) :
    scope = .identifier := by
  cases scope <;> simp [Scope.admits, hcode, hkey, hattr] at h ⊢

theorem Applies.of_agrees {s s' : Site} {i : Nat} {r : Rule} (h : Applies rules s i r)
    (hs : s.Agrees s') : Applies rules s' i r := by
  refine ⟨h.1, h.2.1.trans hs.name, ?_⟩
  have hadm := h.2.2
  cases hscope : r.scope <;>
    simpa [hscope, Scope.admits, hs.inCode, hs.isKey, hs.isAttribute] using hadm

theorem not_applies {s : Site} (hfit : ∀ r ∈ rules, r.old ≠ r.new)
    (h : nameAfter rules guarded s = s.name) (hg : s.name ∉ guarded) {i : Nat} {r : Rule} :
    ¬ Applies rules s i r := by
  intro happ
  obtain ⟨r', j, hsel⟩ := exists_select? happ
  have hr' := chosen_of_select? hsel
  rw [nameAfter_of_chosen hr' hg] at h
  exact hfit r' (List.mem_of_getElem? hr'.1.1) (hr'.1.2.1.trans h.symm)

/-- A fit rule is tame when its names are steady, if it is for identifiers, and when its texts keep
frames and open nothing, if it is for strings. -/
theorem Rule.tame_of_fit {L : Bool → Bool → Prop} {r : Rule} (hfit : r.unfit? = none)
    (hsteady : r.scope = .identifier → Steady L r.old r.new)
    (hframe : r.scope = .stringLiteral → Shelters r.old.toList r.new.toList ∧
      (['$', '{'] <:+: r.new.toList → ['$', '{'] <:+: r.old.toList)) : r.Tame L := by
  have hname := Rule.isName_of_fit hfit
  obtain ⟨hold, hnew⟩ := Rule.plain_of_fit hfit
  unfold Rule.Tame
  cases hs : r.scope with
  | identifier => exact ⟨hname (by simp [hs]), hsteady hs⟩
  | jsxAttribute => exact hname (by simp [hs])
  | objectKey => exact hname (by simp [hs])
  | stringLiteral =>
    obtain ⟨hshelters, hopens⟩ := hframe hs
    exact ⟨⟨hold, hnew, hshelters⟩, hopens⟩

end

namespace RuleSet

variable {set : RuleSet}

/-- A place that has had its turn has no rule any more, unless it has become an attribute and a
rule is for attributes of its name only. -/
theorem guarded_of_applies (hp : Peaceful set.guarded set.rules) (hfit : ∀ r ∈ set.rules, r.old ≠ r.new)
    {s s' : Site} (hname : s'.name = nameAfter set.rules set.guarded s)
    (hcode : s'.inCode = s.inCode) (hkey : s'.isKey = s.isKey)
    (hattr : ∀ y, set.Effective .jsxAttribute y → set.Lonely y → s.inCode = true →
      s'.isAttribute = true → s.isAttribute = true)
    {i : Nat} {r : Rule} (hr : Applies set.rules s' i r) : s'.name ∈ set.guarded := by
  refine Decidable.byContradiction fun hg => ?_
  obtain ⟨hi, hold, hadm⟩ := hr
  have hmem := List.mem_of_getElem? hi
  rcases nameAfter_cases s with hs | ⟨j, q, hq, -, hs⟩
  · -- the place kept its name, and a rule for it would have been one before
    rw [hname] at hold hg
    rw [hs] at hold hg
    suffices h : ∃ k z, Applies set.rules s k z by
      obtain ⟨k, z, hz⟩ := h
      exact not_applies hfit hs hg hz
    cases hscope : r.scope with
    | identifier => exact ⟨i, r, hi, hold, by simpa [hscope, Scope.admits, hcode] using hadm⟩
    | objectKey => exact ⟨i, r, hi, hold, by simpa [hscope, Scope.admits, hkey] using hadm⟩
    | stringLiteral => exact ⟨i, r, hi, hold, by simpa [hscope, Scope.admits, hcode] using hadm⟩
    | jsxAttribute =>
      simp only [hscope, Scope.admits, hcode, Bool.and_eq_true] at hadm
      by_cases hlonely : set.Lonely r
      · refine ⟨i, r, hi, hold, ?_⟩
        simp only [hscope, Scope.admits, Bool.and_eq_true]
        exact ⟨hadm.1, hattr r ⟨hmem, by rwa [hold], hscope⟩ hlonely hadm.1 hadm.2⟩
      · -- the rule has a twin for all words of the code
        unfold Lonely at hlonely
        push Not at hlonely
        obtain ⟨z, hz, hzs, hzo⟩ := hlonely
        obtain ⟨k, hk⟩ := List.mem_iff_getElem?.1 hz
        exact ⟨k, z, hk, hzo.trans hold, by simpa [hzs, Scope.admits] using hadm.1⟩
  · -- the place got the new name of a rule, which is no old name where both rules apply
    obtain ⟨hj, -, hadm'⟩ := hq.1
    refine hp.chain q (List.mem_of_getElem? hj) r hmem ?_ (by rw [← hs, ← hname, hold])
    cases hscope : r.scope with
    | identifier =>
      refine Scope.overlaps_of_admits hadm' (b := .identifier) ?_
      simpa [hscope, Scope.admits, hcode] using hadm
    | objectKey =>
      refine Scope.overlaps_of_admits hadm' (b := .objectKey) ?_
      simpa [hscope, Scope.admits, hkey] using hadm
    | stringLiteral =>
      refine Scope.overlaps_of_admits hadm' (b := .stringLiteral) ?_
      simpa [hscope, Scope.admits, hcode] using hadm
    | jsxAttribute =>
      simp only [hscope, Scope.admits, hcode, Bool.and_eq_true] at hadm
      cases hscope' : q.scope with
      | identifier => rfl
      | jsxAttribute => rfl
      | objectKey =>
        rw [hscope', Scope.admits, ← hkey] at hadm'
        rw [Site.isAttribute_of_isKey hadm'] at hadm
        cases hadm.2
      | stringLiteral =>
        rw [hscope', Scope.admits, hadm.1] at hadm'
        cases hadm'

/-- The rules of a set are tame when its identifiers are steady and its strings keep frames. -/
theorem tame {L : Bool → Bool → Prop} (hfit : ∀ r ∈ set.rules, r.unfit? = none)
    (hopens : set.OpensNothing) (hcontext : set.KeepsContext)
    (hsteady : ∀ r, set.Effective .identifier r → Steady L r.old r.new) :
    ∀ r ∈ set.rules, r.old ∉ set.guarded → r.Tame L := by
  intro r hr hg
  refine Rule.tame_of_fit (hfit r hr) (fun hs => hsteady r ⟨hr, hg, hs⟩) fun hs => ?_
  have heff : set.Effective .stringLiteral r := ⟨hr, hg, hs⟩
  exact ⟨hcontext.frames r heff, fun hopen => absurd hopen (hopens r heff)⟩

theorem exists_coherent (hfit : ∀ r ∈ set.rules, r.unfit? = none) (hcontext : set.KeepsContext) : ∃ L, Coherent L ∧
    (∀ r, set.Effective .identifier r → Steady L r.old r.new) ∧
    ∀ y, set.Effective .jsxAttribute y → set.Lonely y → ∀ {b b'}, L b b' → b' = true → b = true := by
  have hregex : ∀ r, set.Effective .identifier r → ∀ p, Touches p r.old.toList →
      regexKeywords.contains (joined p r.new) = regexKeywords.contains (joined p r.old) := by
    intro r hr p hp
    rw [Bool.eq_iff_iff, List.contains_iff_mem, List.contains_iff_mem]
    exact (hcontext.regex r hr p hp).symm
  by_cases hy : ∃ y, set.Effective .jsxAttribute y ∧ set.Lonely y
  · obtain ⟨y, hy, hlonely⟩ := hy
    refine ⟨fun b b' => b' = true → b = true, ⟨fun _ h => h, fun h h' => ?_⟩, fun r hr => ?_,
      fun _ _ _ _ _ h => h⟩
    · simp only [Bool.and_eq_true]
      exact fun hb => ⟨h hb.1, h' hb.2⟩
    · refine ⟨hregex r hr, fun p hp => ?_, fun p hp => ?_⟩
      · have hdeclares : joined p r.old ∈ declarationKeywords →
            joined p r.new ∈ declarationKeywords := by
          by_cases hnil : p = []
          · rw [hnil, joined_nil, joined_nil]
            exact hcontext.declares y hy hlonely r hr
          · -- a name that letters touch starts with none, and is no keyword then
            have hne : r.old.toList ≠ [] := by
              simpa using (Rule.unfit?_eq_none_iff.1 (hfit r hr.mem)).1.1
            have hall : ∀ v ∈ declarationKeywords, v.toList.all isFlag = true := by decide
            exact fun hmem => absurd hmem (not_mem_joined hall (hp.apart hnil) hne p)
        simpa [not_imp_not] using hdeclares
      · simpa using hcontext.returns y hy hlonely r hr p hp
  · refine ⟨fun _ _ => True, ⟨fun _ => trivial, fun _ _ => trivial⟩,
      fun r hr => ⟨hregex r hr, fun _ _ => trivial, fun _ _ => trivial⟩, fun y hy' hlonely => ?_⟩
    exact absurd ⟨y, hy', hlonely⟩ hy

theorem guarded_of_leftOver (hcontext : set.KeepsContext) {ps : List Piece} {s : Site}
    (hs : LeftOver (nameAfter set.rules set.guarded) [] ps s) {i : Nat} {r : Rule}
    (hr : Applies set.rules s i r) : s.name ∈ set.guarded := by
  obtain ⟨site, -, ⟨hcode, hkey, hattr⟩, hnot, hletter, hrest⟩ := hs
  refine Decidable.byContradiction fun hg => ?_
  obtain ⟨hi, hold, hadm⟩ := hr
  have hscope : r.scope = .identifier :=
    Scope.eq_identifier hadm hrest.inCode hrest.isKey hrest.isAttribute
  have hcases : nameAfter set.rules set.guarded site = site.name ∨ _ := nameAfter_cases site
  rcases hcases with hn | ⟨j, q, hq, hqg, hn⟩
  · rw [hn, hnot] at hletter
    cases hletter
  · obtain ⟨hj, hqold, hqadm⟩ := hq.1
    have hqscope := Scope.eq_identifier hqadm hcode hkey hattr
    have hqeff : set.Effective .identifier q :=
      ⟨List.mem_of_getElem? hj, by rwa [hqold], hqscope⟩
    have hreff : set.Effective .identifier r := ⟨List.mem_of_getElem? hi, by rwa [hold], hscope⟩
    rw [hn] at hletter hrest
    rw [← hqold] at hnot
    refine hcontext.rests q hqeff r hreff hnot hletter ?_
    rw [hold, hrest.name, String.toList_ofList]

/-- **Every source is stable** under rules without conflicts that open nothing and keep the
context. -/
theorem stable {rules : List Rule} {extra : List String}
    (hset : RuleSet.ofRules rules extra = .ok set)
    (hconf : ∀ c ∈ set.conflicts, c.blocks = false) (hopens : set.OpensNothing)
    (hcontext : set.KeepsContext) (source : String) : set.Stable source := by
  have hp := RuleSet.peaceful hset hconf
  have hfit : ∀ r ∈ set.rules, r.unfit? = none := by
    obtain ⟨hfit, rfl⟩ := RuleSet.ofRules_eq_ok_iff.1 hset
    exact hfit
  have hne : ∀ r ∈ set.rules, r.old ≠ r.new :=
    fun r hr => (Rule.unfit?_eq_none_iff.1 (hfit r hr)).2.1
  obtain ⟨L, hL, hsteady, hattr⟩ := exists_coherent hfit hcontext
  refine rename_eq_of_quiet fun f hf => ?_
  rw [Option.eq_none_iff_forall_not_mem]
  intro i hi
  obtain ⟨s, r, rfl, hg, hr⟩ := rule?_verdict_iff.1 hi
  refine hg ?_
  rcases exists_of_place_rename hL (tame hfit hopens hcontext hsteady) hf with
    ⟨s₀, s', hmatch, hagrees⟩ | hleft
  · cases hmatch with
    | place hname hcode hkey hrel =>
      rw [hagrees.name]
      exact guarded_of_applies hp hne hname hcode hkey
        (fun y hy hlonely hc => hattr y hy hlonely (hrel hc)) (hr.1.of_agrees hagrees)
  · exact guarded_of_leftOver hcontext hleft hr.1

end RuleSet

end Renaming
