import Renaming.Proofs.Rename.Order
import Renaming.Proofs.Report.Tally
import Renaming.Proofs.Rule.Conflict
import Renaming.Proofs.Source.Frames
import Renaming.Run

/-!
The entries of a report under which the places are counted that each rule renames. A rule is told by
its description, in which an arrow stands between its names; names of strings may hold arrows too.

* `Rule.describe_eq_iff`: fit rules with one description are one rule, or the label of both has two
  arrows and each rule takes another one for its own (`Rule.Regroups`).
* `RuleSet.describe_injective_iff`: the rules of a set without conflicts have descriptions of their
  own, and entries of their own, exactly when no two of them regroup.
-/

namespace Renaming

open Renaming.Source

/-- The names of two rules for strings make one label: a part with an arrow in front of it is the end
of the old name of the second rule, and with the arrow behind it the start of the new name of the
first. -/
structure Rule.Regroups (a b : Rule) : Prop where
  left : a.scope = .stringLiteral
  right : b.scope = .stringLiteral
  names : ∃ part, b.old = a.old ++ "->" ++ part ∧ a.new = part ++ "->" ++ b.new

/-! ### Labels -/

/-- Two texts with arrows in them that are equal: both arrows are at one place, or one is in front
of the other. -/
theorem arrow_append_cases {x y x' y' : List Char}
    (h : x ++ '-' :: '>' :: y = x' ++ '-' :: '>' :: y') :
    (x = x' ∧ y = y') ∨ (∃ m, x' = x ++ '-' :: '>' :: m ∧ y = m ++ '-' :: '>' :: y') ∨
      ∃ m, x = x' ++ '-' :: '>' :: m ∧ y' = m ++ '-' :: '>' :: y := by
  -- what lies between the two arrows, from the first of them on
  have hbetween : ∀ {t y y' : List Char}, '-' :: '>' :: y = t ++ '-' :: '>' :: y' →
      (t = [] ∧ y = y') ∨ ∃ m, t = '-' :: '>' :: m ∧ y = m ++ '-' :: '>' :: y' := by
    intro t y y' ht
    match t with
    | [] =>
      simp only [List.nil_append, List.cons.injEq, true_and] at ht
      exact .inl ⟨rfl, ht⟩
    | [c] =>
      simp only [List.cons_append, List.nil_append, List.cons.injEq] at ht
      exact absurd ht.2.1 (by decide)
    | c :: d :: m =>
      simp only [List.cons_append, List.cons.injEq] at ht
      exact .inr ⟨m, by rw [← ht.1, ← ht.2.1], ht.2.2⟩
  rcases List.append_eq_append_iff.1 h with ⟨t, hx, ht⟩ | ⟨t, hx, ht⟩
  · rcases hbetween ht with ⟨rfl, hy⟩ | ⟨m, rfl, hy⟩
    · exact .inl ⟨by rw [hx, List.append_nil], hy⟩
    · exact .inr (.inl ⟨m, hx, hy⟩)
  · rcases hbetween ht with ⟨rfl, hy⟩ | ⟨m, rfl, hy⟩
    · exact .inl ⟨by rw [hx, List.append_nil], hy.symm⟩
    · exact .inr (.inr ⟨m, hx, hy⟩)

theorem toList_arrow (s t : String) :
    (s ++ "->" ++ t).toList = s.toList ++ '-' :: '>' :: t.toList := by
  simp [String.toList_append]

theorem eq_arrow_of_toList {s t : String} {m : List Char}
    (h : s.toList = t.toList ++ '-' :: '>' :: m) : s = t ++ "->" ++ String.ofList m := by
  rw [← String.toList_inj, toList_arrow, String.toList_ofList, h]

theorem eq_ofList_arrow_of_toList {s t : String} {m : List Char}
    (h : s.toList = m ++ '-' :: '>' :: t.toList) : s = String.ofList m ++ "->" ++ t := by
  rw [← String.toList_inj, toList_arrow, String.toList_ofList, h]

theorem Rule.names_of_label_eq {a b : Rule} (h : a.label = b.label) :
    (a.old = b.old ∧ a.new = b.new) ∨
      (∃ part, b.old = a.old ++ "->" ++ part ∧ a.new = part ++ "->" ++ b.new) ∨
      ∃ part, a.old = b.old ++ "->" ++ part ∧ b.new = part ++ "->" ++ a.new := by
  have hlists := congrArg String.toList h
  rw [Rule.label, Rule.label, toList_arrow, toList_arrow] at hlists
  rcases arrow_append_cases hlists with ⟨hold, hnew⟩ | ⟨m, hold, hnew⟩ | ⟨m, hold, hnew⟩
  · exact .inl ⟨String.toList_inj.1 hold, String.toList_inj.1 hnew⟩
  · exact .inr (.inl ⟨_, eq_arrow_of_toList hold, eq_ofList_arrow_of_toList hnew⟩)
  · exact .inr (.inr ⟨_, eq_arrow_of_toList hold, eq_ofList_arrow_of_toList hnew⟩)

theorem Rule.Regroups.label_eq {a b : Rule} (h : a.Regroups b) : a.label = b.label := by
  obtain ⟨part, hold, hnew⟩ := h.names
  rw [Rule.label, Rule.label, hold, hnew]
  simp only [String.append_assoc]

theorem Rule.Regroups.describe_eq {a b : Rule} (h : a.Regroups b) : a.describe = b.describe := by
  rw [Rule.describe, Rule.describe, h.left, h.right, h.label_eq]

theorem Rule.Regroups.ne {a b : Rule} (h : a.Regroups b) : a ≠ b := by
  rintro rfl
  obtain ⟨part, hold, -⟩ := h.names
  have hlength := congrArg (fun s => s.toList.length) hold
  simp only [toList_arrow, List.length_append, List.length_cons] at hlength
  omega

/-! ### Descriptions -/

/-- What a description says of the scope. -/
def Scope.tag : Scope → String
  | .identifier => ""
  | scope => " [" ++ scope.name ++ "]"

theorem Rule.describe_eq (r : Rule) : r.describe = r.label ++ r.scope.tag := by
  rw [Rule.describe]
  cases r.scope with
  | identifier => exact String.append_empty.symm
  | _ => simp only [Scope.tag, String.append_assoc]

theorem Rule.end_describe {r : Rule} (h : r.scope ≠ .identifier) :
    r.describe.toList.reverse.take 2 = r.scope.tag.toList.reverse.take 2 := by
  have hlength : 2 ≤ r.scope.tag.toList.reverse.length := by
    cases hs : r.scope with
    | identifier => exact absurd hs h
    | _ => decide
  rw [r.describe_eq, String.toList_append, List.reverse_append,
    List.take_append_of_le_length hlength]

theorem Rule.end_describe_of_identifier {r : Rule} (hfit : r.unfit? = none)
    (h : r.scope = .identifier) :
    ∃ c, r.describe.toList.reverse.head? = some c ∧ isIdentifier c = true := by
  have hname := (Rule.isName_of_fit hfit (by simp [h])).2
  obtain ⟨c, t, hc⟩ := List.exists_cons_of_ne_nil
    (List.reverse_eq_nil_iff.not.2 hname.ne_nil)
  refine ⟨c, ?_, hname.isIdentifier c (List.mem_reverse.1 (by rw [hc]; exact List.mem_cons_self ..))⟩
  rw [r.describe_eq, h, Scope.tag, String.append_empty, Rule.label, toList_arrow,
    List.reverse_append, List.reverse_cons, List.reverse_cons, hc]
  rfl

theorem Rule.scope_of_describe_eq {a b : Rule} (ha : a.unfit? = none) (hb : b.unfit? = none)
    (h : a.describe = b.describe) : a.scope = b.scope := by
  -- a tag ends with a bracket, which is no character of a name
  have hone : ∀ {a b : Rule}, a.unfit? = none → a.describe = b.describe →
      a.scope = .identifier → b.scope = .identifier := by
    intro a b ha h hscope
    by_contra hne
    obtain ⟨c, hc, hid⟩ := Rule.end_describe_of_identifier ha hscope
    have hhead := congrArg List.head? (Rule.end_describe hne)
    rw [List.head?_take, List.head?_take, if_neg (by decide), if_neg (by decide), ← h, hc] at hhead
    cases hs : b.scope with
    | identifier => exact hne hs
    | _ =>
      rw [hs] at hhead
      obtain rfl := Option.some.inj hhead
      revert hid
      decide
  by_cases hscope : a.scope = .identifier
  · rw [hscope, hone ha h hscope]
  · have hscope' : b.scope ≠ .identifier := fun hb' => hscope (hone hb h.symm hb')
    have hend := Rule.end_describe hscope
    rw [h, Rule.end_describe hscope'] at hend
    revert hscope hscope' hend
    cases a.scope <;> cases b.scope <;> decide

/-- **Fit rules with one description** are one rule, or their names regroup. -/
theorem Rule.describe_eq_iff {a b : Rule} (ha : a.unfit? = none) (hb : b.unfit? = none) :
    a.describe = b.describe ↔ a = b ∨ a.Regroups b ∨ b.Regroups a := by
  constructor
  · intro h
    have hscope := Rule.scope_of_describe_eq ha hb h
    have hlabel : a.label = b.label := by
      rw [a.describe_eq, b.describe_eq, hscope] at h
      exact String.append_left_inj _ |>.1 h
    -- a name of code has no arrow in it
    have hstring : ∀ {a b : Rule} {part : String}, b.unfit? = none → b.old = a.old ++ "->" ++ part →
        b.scope = .stringLiteral := by
      intro a b part hb hold
      by_contra hne
      have hmem : '-' ∈ b.old.toList := by simp [hold]
      have := (Rule.isName_of_fit hb hne).1.isIdentifier _ hmem
      revert this
      decide
    rcases Rule.names_of_label_eq hlabel with ⟨hold, hnew⟩ | ⟨part, hold, hnew⟩ | ⟨part, hold, hnew⟩
    · left
      cases a
      cases b
      simp_all
    · have hb' := hstring hb hold
      exact .inr (.inl ⟨hscope.trans hb', hb', part, hold, hnew⟩)
    · have ha' := hstring ha hold
      exact .inr (.inr ⟨hscope.symm.trans ha', ha', part, hold, hnew⟩)
  · rintro (rfl | h | h)
    · rfl
    · exact h.describe_eq
    · exact h.describe_eq.symm

/-! ### Rules without conflicts -/

theorem nodup_key_of_conflicts {guarded : String → Bool} {rules : List Rule}
    (h : conflicts guarded rules = []) : (rules.map Rule.key).Nodup := by
  have hpairs := Conflict.ofPairs_eq_nil_iff.1 (List.append_eq_nil_iff.1 h).1
  refine List.pairwise_map.2 (hpairs.imp fun {a b} hab hkey => ?_)
  obtain ⟨hold, hscope⟩ := Prod.mk.inj hkey
  have hover : a.scope.overlaps b.scope = true := by rw [hscope, Scope.overlaps_self]
  exact (Conflict.of_between_eq_nil hab hover).1 ⟨hold, hscope⟩

theorem not_guarded_of_conflicts {guarded : String → Bool} {rules : List Rule}
    (h : conflicts guarded rules = []) {r : Rule} (hr : r ∈ rules) : guarded r.old = false := by
  have hnone := List.flatMap_eq_nil_iff.1 (List.append_eq_nil_iff.1 h).2 r hr
  rw [Conflict.ofProtected, List.append_eq_nil_iff] at hnone
  simpa using hnone.1

/-! ### Entries -/

theorem Tally.count_map {α : Type} {key : α → String} {l : List α} (f : α → Nat) (hl : l.Nodup)
    {a : α} (ha : a ∈ l) (hkey : ∀ b ∈ l, key b = key a → b = a) :
    count (key a) (l.map fun x => (key x, f x)) = f a := by
  have hnone : ∀ {l : List α}, (∀ b ∈ l, key b ≠ key a) →
      count (key a) (l.map fun x => (key x, f x)) = 0 := by
    intro l h
    induction l with
    | nil => rfl
    | cons b l ih =>
      obtain ⟨hb, hrest⟩ := List.forall_mem_cons.1 h
      rw [List.map_cons, count, if_neg hb, ih hrest]
  induction l with
  | nil => cases ha
  | cons b l ih =>
    obtain ⟨hb, hrest⟩ := List.nodup_cons.1 hl
    obtain ⟨hkeyb, hkeyrest⟩ := List.forall_mem_cons.1 hkey
    rw [List.map_cons, count]
    by_cases hab : b = a
    · subst hab
      have hother : ∀ c ∈ l, key c ≠ key b := fun c hc heq => hb (hkeyrest c hc heq ▸ hc)
      rw [if_pos rfl, hnone hother, Nat.add_zero]
    · have hmem := (List.mem_cons.1 ha).resolve_left fun h => hab h.symm
      rw [if_neg fun heq => hab (hkeyb heq), ih hrest hmem hkeyrest, Nat.zero_add]

namespace RuleSet

variable {rules : List Rule} {extra : List String} {set : RuleSet}

/-- Under the description of each rule stands the number of places that the rule renames, in the
counts of every source. -/
def OwnsEntries (set : RuleSet) : Prop :=
  ∀ source, ∀ r ∈ set.rules,
    (Run.hitsOf set.labels (rename set.rules set.guarded source).hits).count r.describe =
      placesOf set.rules set.guarded source r

theorem count_hitsOf (hkeys : (set.rules.map Rule.key).Nodup) (source name : String) :
    (Run.hitsOf set.labels (rename set.rules set.guarded source).hits).count name =
      Tally.count name (set.rules.map fun r =>
        (r.describe, placesOf set.rules set.guarded source r)) := by
  rw [Run.hitsOf, Tally.count_ofList, Tally.count_filter_pos, hits_rename_eq hkeys, labels,
    List.zip_map']

theorem placesOf_string {guarded : List String} {a : Rule}
    (hkeys : (rules.map Rule.key).Nodup) (ha : a ∈ rules) (hscope : a.scope = .stringLiteral)
    (hg : guarded.contains a.old = false) (hold : ∀ c ∈ a.old.toList, needsEscape c = false)
    (r : Rule) : placesOf rules guarded (String.ofList ('\'' :: (a.old.toList ++ ['\'']))) r =
      if a = r then 1 else 0 := by
  have htokens : tokensOf ('\'' :: (a.old.toList ++ ['\''])) = [stringOf a.old.toList] :=
    (tokens_string hold .start []).trans (congrArg (_ :: ·) (tokens_nil _))
  have hcontent := content?_of_plain (q := '\'') rfl hold
  have hcharge : InCharge rules ⟨a.old, false, [], []⟩ a :=
    ⟨⟨ha, rfl, by rw [hscope]; rfl⟩, fun _ _ _ _ => by rw [hscope]; exact Nat.zero_le _⟩
  have hruling : ruling? rules guarded (.place ⟨a.old, false, [], []⟩) = some a := by
    rw [ruling?, hg]
    exact (map_fst_select?_eq_some_iff hkeys).2 hcharge
  have hkept : ∀ t, ruling? rules guarded (.kept t) ≠ some r := fun t => by simp [ruling?]
  rw [placesOf, String.toList_ofList, fragmentsOf_eq_placed, htokens, placed, stringOf, placed,
    Piece.fragments_content hcontent]
  simp [hkept, hruling, List.countP_cons]

/-- **The rules of a set without conflicts have descriptions of their own** exactly when no two of
them regroup, and that is when each of them has an entry of its own for the places that it
renames. -/
theorem describe_injective_iff (hset : ofRules rules extra = .ok set) (hconf : set.conflicts = []) :
    ((∀ a ∈ set.rules, ∀ b ∈ set.rules, a.describe = b.describe → a = b) ↔
      ∀ a ∈ set.rules, ∀ b ∈ set.rules, ¬ a.Regroups b) ∧
    (set.OwnsEntries ↔ ∀ a ∈ set.rules, ∀ b ∈ set.rules, ¬ a.Regroups b) := by
  have hkeys : (set.rules.map Rule.key).Nodup := nodup_key_of_conflicts hconf
  obtain ⟨hfit, hrules⟩ := ofRules_eq_ok_iff.1 hset
  replace hfit : ∀ r ∈ set.rules, r.unfit? = none := by rwa [hrules]
  have hinj : (∀ a ∈ set.rules, ∀ b ∈ set.rules, a.describe = b.describe → a = b) ↔
      ∀ a ∈ set.rules, ∀ b ∈ set.rules, ¬ a.Regroups b := by
    constructor
    · intro h a ha b hb hab
      exact hab.ne (h a ha b hb hab.describe_eq)
    · intro h a ha b hb heq
      rcases (Rule.describe_eq_iff (hfit a ha) (hfit b hb)).1 heq with hab | hab | hab
      · exact hab
      · exact absurd hab (h a ha b hb)
      · exact absurd hab (h b hb a ha)
  refine ⟨hinj, ?_⟩
  constructor
  · -- in a string that only the first rule renames both rules have the same count
    intro h a ha b hb hab
    have hg := not_guarded_of_conflicts hconf ha
    have hplaces := fun r => placesOf_string hkeys ha hab.left hg (Rule.plain_of_fit (hfit a ha)).1 r
    have hsame := h (String.ofList ('\'' :: (a.old.toList ++ ['\'']))) a ha
    rw [hab.describe_eq, h _ b hb, hplaces a, hplaces b, if_pos rfl, if_neg hab.ne] at hsame
    cases hsame
  · intro h source r hr
    rw [count_hitsOf hkeys]
    exact Tally.count_map _ (hkeys.of_map _) hr fun b hb heq => hinj.2 h b hb r hr heq

end RuleSet

/-- Rules for routes, of which two have arrows in their names. -/
def routeRules : RuleSet where
  rules := [⟨"route", "path", .identifier⟩, ⟨"route", "path", .stringLiteral⟩,
    ⟨"home->cart", "shop", .stringLiteral⟩, ⟨"home", "start->cart", .stringLiteral⟩]

theorem RuleSet.describe_injective_routeRules :
    (∀ a ∈ routeRules.rules, ∀ b ∈ routeRules.rules, a.describe = b.describe → a = b) ∧
      routeRules.OwnsEntries := by
  have hlabels : ∀ a ∈ routeRules.rules, ∀ b ∈ routeRules.rules,
      a.scope = .stringLiteral → b.scope = .stringLiteral → a.label = b.label → a = b := by
    decide +kernel
  have hnone : ∀ a ∈ routeRules.rules, ∀ b ∈ routeRules.rules, ¬ a.Regroups b :=
    fun a ha b hb hab => hab.ne (hlabels a ha b hb hab.left hab.right hab.label_eq)
  have hset : RuleSet.ofRules routeRules.rules [] = .ok routeRules := rfl
  have hiff := RuleSet.describe_injective_iff hset (by decide +kernel)
  exact ⟨hiff.1.2 hnone, hiff.2.2 hnone⟩

/-- Rules for strings whose names have the same text around two arrows. -/
def crossedRules : RuleSet where
  rules := [⟨"home->cart", "shop", .stringLiteral⟩, ⟨"home", "cart->shop", .stringLiteral⟩]

/-- These rules have no conflict, and one description. A source in which each of them renames one
place has a single entry, of two places. -/
theorem RuleSet.not_describe_injective_crossedRules :
    RuleSet.ofRules crossedRules.rules [] = .ok crossedRules ∧ crossedRules.conflicts = [] ∧
      (¬ ∀ a ∈ crossedRules.rules, ∀ b ∈ crossedRules.rules, a.describe = b.describe → a = b) ∧
      (rename crossedRules.rules crossedRules.guarded "['home->cart', 'home']").hits = [1, 1] ∧
      Run.hitsOf crossedRules.labels
        (rename crossedRules.rules crossedRules.guarded "['home->cart', 'home']").hits =
          [("home->cart->shop [string_literal]", 2)] := by
  refine ⟨rfl, by decide +kernel, by decide +kernel, by decide +kernel, by decide +kernel⟩

end Renaming
