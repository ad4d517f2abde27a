import Renaming.Checked.Rename
import Renaming.Proofs.Rule.Choice

/-!
The rule for a place by the positions of the rules. The rules for a name are sorted by the ranks of
their scopes and then by their positions (`pairwise_ranked`), so the first of them whose scope holds
a place is the one that goes before all others that apply: `find?_ranked`. With that, what is done
about a place is told by its verdict, and no rule is looked for where there is none: `consider_eq`.
-/

namespace Renaming.Checked

open Renaming.Source

/-! ### Lists of results -/

section

variable {α β : Type} {f : α → Except Fault β} {x : α} {xs : List α}

theorem mapM_cons_eq_ok_iff {zs : List β} : (x :: xs).mapM f = .ok zs ↔
    ∃ y ys, f x = .ok y ∧ xs.mapM f = .ok ys ∧ y :: ys = zs := by
  rw [List.mapM_cons]
  cases f x with
  | error e => simp
  | ok y => cases xs.mapM f <;> simp [pure, Except.pure]

theorem mapM_eq_ok {g : α → β} (h : ∀ x ∈ xs, f x = .ok (g x)) : xs.mapM f = .ok (xs.map g) := by
  induction xs with
  | nil => rfl
  | cons x xs ih =>
    obtain ⟨hx, hxs⟩ := List.forall_mem_cons.1 h
    exact mapM_cons_eq_ok_iff.2 ⟨_, _, hx, ih hxs, rfl⟩

end

theorem idxOf_precedence (s : Scope) : Scope.precedence.idxOf s = s.rank := by cases s <;> decide

section

variable {rules : List Rule}

theorem ruleAt_of_getElem? {i : Nat} {r : Rule} (h : rules[i]? = some r) :
    ruleAt rules i = .ok r := item_eq_ok_iff.2 h

/-! ### The rules for a name -/

/-- The rank of the scope of the rule at a position. -/
def rankAt (rules : List Rule) (i : Nat) : Nat := ((rules[i]?).map (·.scope.rank)).getD 0

theorem rankAt_of_getElem? {i : Nat} {r : Rule} (h : rules[i]? = some r) :
    rankAt rules i = r.scope.rank := by
  rw [rankAt, h]
  rfl

/-- The positions of the rules for a name, sorted. -/
def ranked (rules : List Rule) (name : String) : List Nat :=
  (((positions rules name).map fun i => (rankAt rules i, i)).mergeSort goesBefore).map Prod.snd

theorem mem_positions_iff {name : String} {i : Nat} :
    i ∈ positions rules name ↔ ∃ r, rules[i]? = some r ∧ r.old = name := by
  simp only [positions, List.mem_filterMap, Prod.exists, List.mem_zipIdx_iff_getElem?,
    Option.ite_none_right_eq_some, Option.some.injEq]
  constructor
  · rintro ⟨r, j, hr, hold, rfl⟩
    exact ⟨r, hr, hold⟩
  · rintro ⟨r, hr, hold⟩
    exact ⟨r, i, hr, hold, rfl⟩

theorem mem_ranked_iff {name : String} {i : Nat} :
    i ∈ ranked rules name ↔ ∃ r, rules[i]? = some r ∧ r.old = name := by
  rw [← mem_positions_iff, ranked, ((List.mergeSort_perm _ _).map Prod.snd).mem_iff]
  simp

theorem candidates_eq (name : String) : candidates rules name = .ok (ranked rules name) := by
  have hranks : ∀ i ∈ positions rules name, (do
      let r ← ruleAt rules i
      Except.ok (Scope.precedence.idxOf r.scope, i)) = Except.ok (rankAt rules i, i) := by
    intro i hi
    obtain ⟨r, hr, -⟩ := mem_positions_iff.1 hi
    rw [ruleAt_of_getElem? hr, ok_bind, idxOf_precedence, rankAt_of_getElem? hr]
  rw [candidates, mapM_eq_ok hranks, ok_bind, ranked]

/-- The names of the rules with their sorted positions. -/
def indexed (rules : List Rule) : List (String × List Nat) :=
  rules.map fun r => (r.old, ranked rules r.old)

theorem index_eq : index rules = .ok (indexed rules) :=
  mapM_eq_ok fun r _ => by rw [candidates_eq, ok_bind]

theorem lookup_indexed (name : String) : (indexed rules).lookup name =
      if ∃ r ∈ rules, r.old = name then some (ranked rules name) else none := by
  suffices h : ∀ rs : List Rule, (rs.map fun r => (r.old, ranked rules r.old)).lookup name =
      if ∃ r ∈ rs, r.old = name then some (ranked rules name) else none from h rules
  intro rs
  induction rs with
  | nil => rfl
  | cons r rs ih =>
    rw [List.map_cons, List.lookup_cons, ih]
    by_cases hr : r.old = name
    · simp [hr]
    · simp [hr, beq_false_of_ne (Ne.symm hr)]

/-! ### The first rule that applies -/

theorem goesBefore_trans (a b c : Nat × Nat) (hab : goesBefore a b = true)
    (hbc : goesBefore b c = true) : goesBefore a c = true := by
  simp only [goesBefore, Bool.or_eq_true, Bool.and_eq_true, decide_eq_true_eq, beq_iff_eq] at *
  omega

theorem goesBefore_total (a b : Nat × Nat) : (goesBefore a b || goesBefore b a) = true := by
  simp only [goesBefore, Bool.or_eq_true, Bool.and_eq_true, decide_eq_true_eq, beq_iff_eq]
  omega

theorem pairwise_ranked (rules : List Rule) (name : String) : (ranked rules name).Pairwise fun i j =>
    goesBefore (rankAt rules i, i) (rankAt rules j, j) = true := by
  rw [ranked, List.pairwise_map]
  refine (List.pairwise_mergeSort goesBefore_trans goesBefore_total _).imp_of_mem ?_
  intro a b ha hb hab
  have hrank : ∀ c ∈ ((positions rules name).map fun i => (rankAt rules i, i)).mergeSort goesBefore,
      c = (rankAt rules c.2, c.2) := by
    intro c hc
    obtain ⟨i, -, rfl⟩ := List.mem_map.1 ((List.mergeSort_perm _ _).mem_iff.1 hc)
    rfl
  rwa [← hrank a ha, ← hrank b hb]

theorem goesBefore_rankAt_iff {i j : Nat} {r r' : Rule} (hi : rules[i]? = some r)
    (hj : rules[j]? = some r') : goesBefore (rankAt rules i, i) (rankAt rules j, j) = true ↔
      GoesBefore r.scope i r'.scope j := by
  simp only [goesBefore, GoesBefore, rankAt_of_getElem? hi, rankAt_of_getElem? hj, Bool.or_eq_true,
    Bool.and_eq_true, decide_eq_true_eq, beq_iff_eq]

/-- **The first rule whose scope holds a place** is the one that is used there. -/
theorem find?_ranked (rules : List Rule) (site : Site) :
    ((ranked rules site.name).find? fun i => (rules[i]?).any (·.scope.admits site)) =
      (select? rules site).map Prod.snd := by
  cases hs : select? rules site with
  | none =>
    rw [Option.map_none, List.find?_eq_none]
    intro i hi
    obtain ⟨r, hr, hold⟩ := mem_ranked_iff.1 hi
    rw [hr, Option.any_some, select?_eq_none_iff.1 hs r (List.mem_of_getElem? hr) hold]
    exact Bool.false_ne_true
  | some q =>
    obtain ⟨r, i⟩ := q
    have hchosen := select?_eq_some_iff.1 hs
    obtain ⟨hi, hold, hadmits⟩ := hchosen.1
    have hmem : i ∈ ranked rules site.name := mem_ranked_iff.2 ⟨r, hi, hold⟩
    have hfits : (rules[i]?).any (·.scope.admits site) = true := by
      rw [hi, Option.any_some, hadmits]
    cases hf : (ranked rules site.name).find? fun i => (rules[i]?).any (·.scope.admits site) with
    | none => exact absurd hfits (List.find?_eq_none.1 hf i hmem)
    | some j =>
      obtain ⟨hj, as, bs, hsplit, has⟩ := List.find?_eq_some_iff_append.1 hf
      obtain ⟨r', hr', hold'⟩ : ∃ r', rules[j]? = some r' ∧ r'.old = site.name := by
        refine mem_ranked_iff.1 ?_
        rw [hsplit]
        exact List.mem_append_right _ List.mem_cons_self
      rw [hr', Option.any_some] at hj
      have hbefore := hchosen.2 j r' ⟨hr', hold', hj⟩
      have hpair := pairwise_ranked rules site.name
      rw [hsplit, List.pairwise_append, List.pairwise_cons] at hpair
      rw [hsplit, List.mem_append, List.mem_cons] at hmem
      rcases hmem with hm | rfl | hm
      · -- the chosen rule would have been found first
        have := has i hm
        rw [hfits] at this
        cases this
      · rfl
      · have hbehind := (goesBefore_rankAt_iff hr' hi).1 (hpair.2.1.1 i hm)
        exact congrArg some (hbehind.antisymm hbefore)

theorem firstRule?_eq {p : Scope → Except Fault Bool} {q : Scope → Bool}
    (hp : ∀ scope, p scope = .ok (q scope)) {is : List Nat} (his : ∀ i ∈ is, i < rules.length) :
    firstRule? rules p is = .ok (is.find? fun i => (rules[i]?).any fun r => q r.scope) := by
  induction is with
  | nil => rfl
  | cons i is ih =>
    obtain ⟨r, hr⟩ : ∃ r, rules[i]? = some r :=
      ⟨_, List.getElem?_eq_getElem (his i List.mem_cons_self)⟩
    rw [firstRule?, ruleAt_of_getElem? hr, ok_bind, hp, ok_bind, List.find?_cons, hr,
      Option.any_some]
    cases q r.scope with
    | true => rfl
    | false => exact ih fun j hj => his j (List.mem_cons_of_mem i hj)

/-! ### What is done at a place -/

/-- What is done about a fragment at a position. -/
def acted (rules : List Rule) (guarded : List String) (pos : Nat) (f : Fragment) : List Action :=
  match verdict rules guarded f with
  | .keep => []
  | .skip site => [.skip site.name pos]
  | .rename _ i => [.replace ⟨pos, pos + byteLength f.text, i⟩]

/-- **What is done about a place** is what its verdict says. -/
theorem consider_eq {guarded : List String} {bytes : Array UInt8} {code : Array Bool} {site : Site}
    {first last : Nat} (h : ∀ scope,
      admits bytes code scope first last site.inCode = .ok (scope.admits site)) (start : Nat) :
    consider rules guarded bytes code (indexed rules) site.name
        start (start + byteLength site.name.toList) first last site.inCode =
      .ok (acted rules guarded start (.place site)) := by
  have hbound : ∀ i ∈ ranked rules site.name, i < rules.length := by
    intro i hi
    obtain ⟨r, hr, -⟩ := mem_ranked_iff.1 hi
    exact (List.getElem?_eq_some_iff.1 hr).1
  have hfirst := firstRule?_eq h hbound
  rw [find?_ranked] at hfirst
  rw [consider, lookup_indexed, acted, verdict]
  by_cases hknown : ∃ r ∈ rules, r.old = site.name
  · rw [if_pos hknown]
    dsimp only
    rw [hfirst, ok_bind]
    cases select? rules site with
    | none => rfl
    | some q =>
      simp only [Option.map_some]
      split <;> rfl
  · have hnone : select? rules site = none :=
      select?_eq_none_iff.2 fun r hr hold => absurd ⟨r, hr, hold⟩ hknown
    rw [if_neg hknown, hnone]

end

end Renaming.Checked
