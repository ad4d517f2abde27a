import Mathlib.Data.List.Nodup
import Renaming.Proofs.Rename.Renamed

/-!
The order of rules. When no two rules of a list have the same old name and the same scope, a place
has at most one rule in each scope, and which rule is used does not depend on where the rules stand.

* `InCharge`: of the rules that apply to a place the one with the most specific scope. It does not
  mention positions.
* `ruling?` is the rule that renames a fragment. The text, the counts and the skips of a renaming are
  read off from it: `rendered_eq`, `occurrences_rename_eq`, `hits_rename_eq` and `skip?_eq`.
* `rename_perm`: rules in another order rename alike, and each keeps its count.
-/

namespace Renaming

open Renaming.Source

/-- The old name of a rule with its scope. -/
def Rule.key (r : Rule) : String × Scope := (r.old, r.scope)

/-- The rule is for the name of the place, its scope holds the place, and no other such rule of the
list has a more specific scope. -/
def InCharge (rules : List Rule) (s : Site) (r : Rule) : Prop :=
  (r ∈ rules ∧ r.old = s.name ∧ r.scope.admits s = true) ∧
    ∀ r' ∈ rules, r'.old = s.name → r'.scope.admits s = true → r.scope.rank ≤ r'.scope.rank

/-- The rule that renames a fragment: it is used there, and the name is not protected. -/
def ruling? (rules : List Rule) (guarded : List String) : Fragment → Option Rule
  | .kept _ => none
  | .place s => if guarded.contains s.name then none else (select? rules s).map Prod.fst

theorem Scope.rank_injective {a b : Scope} (h : a.rank = b.rank) : a = b := by
  cases a <;> cases b <;> first | rfl | cases h

section

variable {rules : List Rule} {guarded : List String} {s : Site} {f : Fragment} {r : Rule}

/-! ### The rule in charge of a place -/

theorem inCharge_of_chosen {i : Nat} (h : Chosen rules s i r) : InCharge rules s r := by
  obtain ⟨⟨hi, hold, hadm⟩, hfirst⟩ := h
  refine ⟨⟨List.mem_of_getElem? hi, hold, hadm⟩, ?_⟩
  intro r' hr' hold' hadm'
  obtain ⟨j, hj⟩ := List.mem_iff_getElem?.1 hr'
  have hbefore := hfirst j r' ⟨hj, hold', hadm'⟩
  unfold GoesBefore at hbefore
  omega

/-- Rules with one old name and one scope stand in one place of the list. -/
theorem getElem?_inj_of_key {rules : List Rule} (hkeys : (rules.map Rule.key).Nodup) {i j : Nat}
    {a b : Rule} (hi : rules[i]? = some a) (hj : rules[j]? = some b) (h : a.key = b.key) :
    i = j := by
  have hlt : i < (rules.map Rule.key).length := by
    rw [List.length_map]
    exact (List.getElem?_eq_some_iff.1 hi).1
  apply (List.getElem?_inj hlt hkeys).1
  rw [List.getElem?_map, List.getElem?_map, hi, hj]
  simp [h]

theorem chosen_of_inCharge (hkeys : (rules.map Rule.key).Nodup) (h : InCharge rules s r) :
    ∃ i, Chosen rules s i r := by
  obtain ⟨⟨hr, hold, hadm⟩, hleast⟩ := h
  obtain ⟨i, hi⟩ := List.mem_iff_getElem?.1 hr
  refine ⟨i, ⟨hi, hold, hadm⟩, ?_⟩
  rintro j r' ⟨hj, hold', hadm'⟩
  have hle := hleast r' (List.mem_of_getElem? hj) hold' hadm'
  by_cases hrank : r.scope.rank = r'.scope.rank
  · -- a rule of the same scope for the same name is the rule itself
    have hkey : r.key = r'.key := by
      rw [Rule.key, Rule.key, hold, hold', Scope.rank_injective hrank]
    have hij := getElem?_inj_of_key hkeys hi hj hkey
    exact .inr ⟨hrank, by omega⟩
  · exact .inl (by omega)

theorem map_fst_select?_eq_some_iff (hkeys : (rules.map Rule.key).Nodup) :
    (select? rules s).map Prod.fst = some r ↔ InCharge rules s r := by
  constructor
  · intro h
    obtain ⟨⟨q, i⟩, hq, rfl⟩ := Option.map_eq_some_iff.1 h
    exact inCharge_of_chosen (chosen_of_select? hq)
  · intro h
    obtain ⟨i, hi⟩ := chosen_of_inCharge hkeys h
    rw [select?_eq_some_iff.2 hi]
    rfl

/-- Which rule is in charge of a place does not depend on the order of the rules. -/
theorem inCharge_perm {rules' : List Rule} (hperm : rules'.Perm rules) :
    InCharge rules' s r ↔ InCharge rules s r := by
  unfold InCharge
  simp only [hperm.mem_iff]

theorem map_fst_select?_perm {rules' : List Rule} (hkeys : (rules.map Rule.key).Nodup)
    (hperm : rules'.Perm rules) (s : Site) :
    (select? rules' s).map Prod.fst = (select? rules s).map Prod.fst := by
  have hkeys' : (rules'.map Rule.key).Nodup := (hperm.map Rule.key).nodup_iff.2 hkeys
  apply Option.ext
  intro r
  rw [map_fst_select?_eq_some_iff hkeys', map_fst_select?_eq_some_iff hkeys, inCharge_perm hperm]

/-! ### A renaming by the rules of its fragments -/

theorem rendered_eq : rendered rules guarded f =
    match ruling? rules guarded f with
    | some r => r.new.toList
    | none => f.text := by
  cases f with
  | kept t => rfl
  | place s =>
    simp only [rendered, verdict, ruling?]
    cases select? rules s with
    | none => simp [Verdict.render]
    | some q => by_cases hg : s.name ∈ guarded <;> simp [hg, Verdict.render]

/-- The position of the rule that renames a fragment holds this rule. -/
theorem ruling?_of_rule? {i : Nat} (h : (verdict rules guarded f).rule? = some i) :
    ∃ r, rules[i]? = some r ∧ ruling? rules guarded f = some r := by
  obtain ⟨s, r, rfl, hg, hr⟩ := rule?_verdict_iff.1 h
  refine ⟨r, hr.1.1, ?_⟩
  simp [ruling?, hg, select?_eq_some_iff.2 hr]

theorem rule?_of_ruling? (h : ruling? rules guarded f = some r) :
    ∃ i, rules[i]? = some r ∧ (verdict rules guarded f).rule? = some i := by
  cases f with
  | kept t => cases h
  | place s =>
    simp only [ruling?] at h
    split_ifs at h with hg
    · obtain ⟨⟨q, i⟩, hq, rfl⟩ := Option.map_eq_some_iff.1 h
      have hr := chosen_of_select? hq
      exact ⟨i, hr.1.1, rule?_verdict_iff.2 ⟨s, q, rfl, by simpa using hg, hr⟩⟩

theorem isSome_rule?_eq :
    (verdict rules guarded f).rule?.isSome = (ruling? rules guarded f).isSome := by
  rw [Bool.eq_iff_iff, Option.isSome_iff_exists, Option.isSome_iff_exists]
  constructor
  · rintro ⟨i, hi⟩
    obtain ⟨r, -, hr⟩ := ruling?_of_rule? hi
    exact ⟨r, hr⟩
  · rintro ⟨r, hr⟩
    obtain ⟨i, -, hi⟩ := rule?_of_ruling? hr
    exact ⟨i, hi⟩

/-- A skip is told by the name of the place and by whether it has a rule. -/
theorem skip?_eq : (verdict rules guarded f).skip? =
    match f with
    | .kept _ => none
    | .place s =>
      if guarded.contains s.name ∧ ((select? rules s).map Prod.fst).isSome then
        some ⟨s.name, s.line⟩
      else none := by
  cases f with
  | kept t => rfl
  | place s =>
    simp only [verdict, Option.isSome_map]
    cases select? rules s with
    | none => simp [Verdict.skip?]
    | some q => by_cases hg : s.name ∈ guarded <;> simp [Verdict.skip?, hg]

theorem occurrences_rename_eq (source : String) : (rename rules guarded source).occurrences =
    (fragmentsOf source.toList).countP fun f => (ruling? rules guarded f).isSome := by
  rw [occurrences_rename, ← List.length_map Edit.rule, map_rule_editsOf,
    List.length_filterMap_eq_countP]
  apply List.countP_congr
  intro f _
  rw [isSome_rule?_eq]

/-- The places of a source that a rule renames. -/
def placesOf (rules : List Rule) (guarded : List String) (source : String) (r : Rule) : Nat :=
  (fragmentsOf source.toList).countP fun f => ruling? rules guarded f = some r

/-- Each rule counts the places that it renames. -/
theorem hits_rename_eq (hkeys : (rules.map Rule.key).Nodup) (source : String) :
    (rename rules guarded source).hits = rules.map (placesOf rules guarded source) := by
  apply List.ext_getElem?
  intro i
  rw [hits_rename, List.getElem?_map, List.getElem?_map]
  by_cases hi : i < rules.length
  · rw [List.getElem?_range hi, List.getElem?_eq_getElem hi, Option.map_some, Option.map_some,
      map_rule_editsOf, List.count_filterMap]
    refine congrArg some (List.countP_congr fun f _ => ?_)
    rw [beq_iff_eq, decide_eq_true_iff]
    constructor
    · intro h
      obtain ⟨r, hr, hruling⟩ := ruling?_of_rule? h
      rw [List.getElem?_eq_getElem hi] at hr
      rw [hruling, hr]
    · intro h
      obtain ⟨j, hj, hrule⟩ := rule?_of_ruling? h
      rw [hrule, getElem?_inj_of_key hkeys hj (List.getElem?_eq_getElem hi) rfl]
  · rw [List.getElem?_eq_none (by simpa using hi), List.getElem?_eq_none (by omega)]
    rfl

theorem skipped_rename_eq (source : String) : (rename rules guarded source).skipped =
    (fragmentsOf source.toList).filterMap fun f => (verdict rules guarded f).skip? := by
  simp only [rename, List.filterMap_map]
  rfl

theorem text_rename_congr {rules' : List Rule} {source source' : String}
    (h : List.Forall₂ (fun f f' => rendered rules guarded f = rendered rules' guarded f')
      (fragmentsOf source.toList) (fragmentsOf source'.toList)) :
    (rename rules guarded source).text = (rename rules' guarded source').text := by
  rw [← String.toList_inj, text_rename, text_rename]
  exact flatMap_eq_of_forall₂ h

end

/-! ### Rules in another order -/

section

variable {rules rules' : List Rule} (hkeys : (rules.map Rule.key).Nodup)
  (hperm : rules'.Perm rules) (guarded : List String)

include hkeys hperm

theorem ruling?_perm (f : Fragment) : ruling? rules' guarded f = ruling? rules guarded f := by
  cases f with
  | kept t => rfl
  | place s => simp only [ruling?, map_fst_select?_perm hkeys hperm]

theorem text_rename_perm (source : String) :
    (rename rules' guarded source).text = (rename rules guarded source).text := by
  apply text_rename_congr
  rw [List.forall₂_same]
  intro f _
  rw [rendered_eq, rendered_eq, ruling?_perm hkeys hperm]

theorem placesOf_perm (source : String) :
    placesOf rules' guarded source = placesOf rules guarded source := by
  funext r
  simp only [placesOf, ruling?_perm hkeys hperm]

end

/-- **Rules in another order**, of which no two have the same old name and the same scope, give the
same text, the same number of renamed places and the same skips, and each rule keeps its count. -/
theorem rename_perm {rules rules' : List Rule}
    (hdistinct : rules.Pairwise fun a b => ¬ (a.old = b.old ∧ a.scope = b.scope))
    (hperm : rules'.Perm rules) (guarded : List String) (source : String) :
    let first := rename rules guarded source
    let second := rename rules' guarded source
    second.text = first.text ∧ second.occurrences = first.occurrences ∧
      second.skipped = first.skipped ∧ second.hits.length = rules'.length ∧
        (rules'.zip second.hits).Perm (rules.zip first.hits) := by
  intro first second
  have hkeys : (rules.map Rule.key).Nodup := by
    apply List.pairwise_map.2
    apply hdistinct.imp
    intro a b h heq
    exact h (Prod.mk.inj heq)
  have hkeys' : (rules'.map Rule.key).Nodup := (hperm.map Rule.key).nodup_iff.2 hkeys
  have hhits : first.hits = rules.map (placesOf rules guarded source) := hits_rename_eq hkeys source
  have hhits' : second.hits = rules'.map (placesOf rules guarded source) := by
    rw [← placesOf_perm hkeys hperm]
    exact hits_rename_eq hkeys' source
  refine ⟨text_rename_perm hkeys hperm guarded source, ?_, ?_, ?_, ?_⟩
  · simp only [first, second, occurrences_rename_eq, ruling?_perm hkeys hperm]
  · simp only [first, second, skipped_rename_eq, skip?_eq, map_fst_select?_perm hkeys hperm]
  · rw [hhits', List.length_map]
  · rw [hhits, hhits', ← List.map_prod_left_eq_zip, ← List.map_prod_left_eq_zip]
    exact hperm.map _

/-- Three rules for one name in different scopes, and a rule whose name is protected, turned
round. -/
theorem rename_perm_one_name :
    let rules : List Rule := [⟨"id", "key", .identifier⟩, ⟨"id", "no", .objectKey⟩,
      ⟨"id", "mark", .stringLiteral⟩, ⟨"api", "web", .identifier⟩]
    let source := "f(\x7bid: id\x7d, 'id',\n api, id)"
    let first := rename rules ["api"] source
    let second := rename rules.reverse ["api"] source
    rules.Pairwise (fun a b => ¬ (a.old = b.old ∧ a.scope = b.scope)) ∧
      rules.reverse.Perm rules ∧ first.hits = [2, 1, 1, 0] ∧ first.skipped = [⟨"api", 2⟩] ∧
      second.text = first.text ∧ second.occurrences = first.occurrences ∧
      second.skipped = first.skipped ∧ second.hits.length = rules.reverse.length ∧
        (rules.reverse.zip second.hits).Perm (rules.zip first.hits) := by
  intro rules source first second
  have hdistinct : rules.Pairwise fun a b => ¬ (a.old = b.old ∧ a.scope = b.scope) := by decide
  have hperm : rules.reverse.Perm rules := rules.reverse_perm
  refine ⟨hdistinct, hperm, by decide +kernel, by decide +kernel, ?_⟩
  exact rename_perm hdistinct hperm ["api"] source

end Renaming
