import Renaming.Outcome

/-!
The rule that is used at a place. `Chosen` says which one that is: of the rules for the name whose
scopes hold the place, the one with the most specific scope, and of several such the first.
`select?_eq_some_iff` and `select?_eq_none_iff` say that `select?` finds it.
-/

namespace Renaming

open Renaming.Source

/-! ### The order of rules -/

/-- The rank of a scope: the more specific, the smaller. -/
def Scope.rank : Scope → Nat
  | stringLiteral => 0
  | objectKey => 1
  | jsxAttribute => 2
  | identifier => 3

theorem Scope.mem_precedence (s : Scope) : s ∈ Scope.precedence := by cases s <;> decide

/-- Whether a rule of the scope `a` at the position `i` goes before one of the scope `b` at `j`. -/
def GoesBefore (a : Scope) (i : Nat) (b : Scope) (j : Nat) : Prop :=
  a.rank < b.rank ∨ (a.rank = b.rank ∧ i ≤ j)

theorem GoesBefore.antisymm {a b : Scope} {i j : Nat} (h : GoesBefore a i b j)
    (h' : GoesBefore b j a i) : i = j := by
  unfold GoesBefore at h h'
  omega

/-- The rule at the position `i` is for the name of the place, and its scope holds the place. -/
def Applies (rules : List Rule) (s : Site) (i : Nat) (r : Rule) : Prop :=
  rules[i]? = some r ∧ r.old = s.name ∧ r.scope.admits s = true

/-- The rule at the position `i` applies to the place, and it goes before all others that do. -/
def Chosen (rules : List Rule) (s : Site) (i : Nat) (r : Rule) : Prop :=
  Applies rules s i r ∧
    ∀ j r', Applies rules s j r' → GoesBefore r.scope i r'.scope j

theorem Chosen.unique {rules : List Rule} {s : Site} {i j : Nat} {r r' : Rule}
    (h : Chosen rules s i r) (h' : Chosen rules s j r') : i = j ∧ r = r' := by
  have hij := (h.2 j r' h'.1).antisymm (h'.2 i r h.1)
  subst hij
  exact ⟨rfl, Option.some.inj (h.1.1.symm.trans h'.1.1)⟩

/-! ### The first rule of a scope -/

theorem ruleFor?_eq_some_iff {rules : List Rule} {name : String} {scope : Scope} {r : Rule}
    {i : Nat} : ruleFor? rules name scope = some (r, i) ↔
      (rules[i]? = some r ∧ r.old = name ∧ r.scope = scope) ∧
        ∀ j r', rules[j]? = some r' → r'.old = name → r'.scope = scope → i ≤ j := by
  rw [ruleFor?, List.find?_eq_some_iff_getElem]
  simp only [Bool.and_eq_true, beq_iff_eq, List.length_zipIdx, List.getElem_zipIdx, Nat.zero_add,
    Prod.mk.injEq, Bool.not_eq_true', Bool.and_eq_false_imp, beq_eq_false_iff_ne]
  constructor
  · rintro ⟨⟨hold, hscope⟩, k, hk, ⟨hr, rfl⟩, hfirst⟩
    refine ⟨⟨by rw [List.getElem?_eq_getElem hk, hr], hold, hscope⟩, fun j r' hj ho hs => ?_⟩
    obtain ⟨hlt, rfl⟩ := List.getElem?_eq_some_iff.1 hj
    exact Nat.le_of_not_lt fun hlt' => hfirst j hlt' ho hs
  · rintro ⟨⟨hi, hold, hscope⟩, hfirst⟩
    obtain ⟨hlt, hr⟩ := List.getElem?_eq_some_iff.1 hi
    refine ⟨⟨hold, hscope⟩, i, hlt, ⟨hr, rfl⟩, fun j hj ho hs => ?_⟩
    have := hfirst j _ (List.getElem?_eq_getElem (by omega)) ho hs
    omega

theorem exists_ruleFor? {rules : List Rule} {s : Site} {j : Nat} {r : Rule}
    (h : Applies rules s j r) : ∃ r' i, ruleFor? rules s.name r.scope = some (r', i) ∧ i ≤ j := by
  cases hf : ruleFor? rules s.name r.scope with
  | none =>
    have hnone := List.find?_eq_none.1 hf (r, j) (List.mem_zipIdx_iff_getElem?.2 h.1)
    simp [h.2.1] at hnone
  | some q =>
    obtain ⟨r', i⟩ := q
    exact ⟨r', i, rfl, (ruleFor?_eq_some_iff.1 hf).2 j r h.1 h.2.1 rfl⟩

/-! ### The rule that is used -/

theorem pairwise_precedence : Scope.precedence.Pairwise fun a b => a.rank < b.rank := by decide

theorem chosen_of_select? {rules : List Rule} {s : Site} {r : Rule} {i : Nat}
    (h : select? rules s = some (r, i)) : Chosen rules s i r := by
  obtain ⟨before, scope, after, hp, hf, hnone⟩ := List.findSome?_eq_some_iff.1 h
  rw [Option.filter_eq_some_iff] at hf
  obtain ⟨hf, hadmits⟩ := hf
  obtain ⟨⟨hi, hold, rfl⟩, hfirst⟩ := ruleFor?_eq_some_iff.1 hf
  refine ⟨⟨hi, hold, hadmits⟩, fun j r' hj => ?_⟩
  obtain ⟨hj1, hold', hadmits'⟩ := hj
  have hpair := pairwise_precedence
  have hmem := Scope.mem_precedence r'.scope
  rw [hp, List.pairwise_append, List.pairwise_cons] at hpair
  rw [hp, List.mem_append, List.mem_cons] at hmem
  rcases hmem with hm | hm | hm
  · -- a rule of a more specific scope would have been found first
    obtain ⟨r'', k, hr'', -⟩ := exists_ruleFor? ⟨hj1, hold', hadmits'⟩
    have := hnone _ hm
    rw [hr''] at this
    simp [hadmits'] at this
  · exact .inr ⟨by rw [hm], hfirst j r' hj1 hold' hm⟩
  · exact .inl (hpair.2.1.1 _ hm)

theorem exists_select? {rules : List Rule} {s : Site} {j : Nat} {r : Rule}
    (h : Applies rules s j r) : ∃ r' i, select? rules s = some (r', i) := by
  obtain ⟨r', i, hr', -⟩ := exists_ruleFor? h
  have : (select? rules s).isSome = true := by
    refine List.findSome?_isSome_iff.2 ⟨r.scope, Scope.mem_precedence _, ?_⟩
    simp [hr', h.2.2]
  obtain ⟨q, hq⟩ := Option.isSome_iff_exists.1 this
  exact ⟨q.1, q.2, hq⟩

/-- **The rule that is used at a place** is the first of those that apply. -/
theorem select?_eq_some_iff {rules : List Rule} {s : Site} {r : Rule} {i : Nat} :
    select? rules s = some (r, i) ↔ Chosen rules s i r := by
  refine ⟨chosen_of_select?, fun h => ?_⟩
  obtain ⟨r', j, hs⟩ := exists_select? h.1
  obtain ⟨rfl, rfl⟩ := h.unique (chosen_of_select? hs)
  exact hs

theorem select?_eq_none_iff {rules : List Rule} {s : Site} :
    select? rules s = none ↔ ∀ r ∈ rules, r.old = s.name → r.scope.admits s = false := by
  constructor
  · intro h r hr hold
    rw [Bool.eq_false_iff]
    intro hadmits
    obtain ⟨i, hi⟩ := List.mem_iff_getElem?.1 hr
    obtain ⟨r', j, hs⟩ := exists_select? ⟨hi, hold, hadmits⟩
    rw [h] at hs
    cases hs
  · intro h
    cases hs : select? rules s with
    | none => rfl
    | some q =>
      obtain ⟨hi, hold, hadmits⟩ := (chosen_of_select? hs).1
      rw [h _ (List.mem_of_getElem? hi) hold] at hadmits
      cases hadmits

/-- The rule for a place is told by its name, and by the scopes of the rules for the name that hold
the place. -/
theorem select?_congr {rules : List Rule} {s s' : Site} (hname : s'.name = s.name)
    (hadmits : ∀ r ∈ rules, r.old = s.name → r.scope.admits s' = r.scope.admits s) :
    select? rules s' = select? rules s := by
  have happlies : ∀ i r, Applies rules s' i r ↔ Applies rules s i r := by
    intro i r
    unfold Applies
    rw [hname]
    refine and_congr_right fun hi => and_congr_right fun hold => ?_
    rw [hadmits r (List.mem_of_getElem? hi) hold]
  refine Option.ext fun q => ?_
  obtain ⟨r, i⟩ := q
  rw [select?_eq_some_iff, select?_eq_some_iff, Chosen, Chosen]
  simp only [happlies]

end Renaming
