import Renaming.Proofs.Rename.Inverse
import Renaming.Proofs.Rename.Order

/-!
Rules one after the other. With plain names, of which no two old ones are the same, and without
conflicts that block, the rules of a set may be used in turns, each on the text that the one before
it has left, and in any order: `renameInTurn_eq`.

A turn takes the places of its rule away and leaves all others as they were (`Turn`). So renaming by
`r :: rs` at once comes to the same as renaming by `rs` what `r` alone has left.
-/

namespace Renaming

open Renaming.Source

/-- Renames a source by one rule after the other: the last text, and how many places each rule
renamed in its turn. -/
def renameInTurn (guarded : List String) : List Rule → String → String × List Nat
  | [], source => (source, [])
  | r :: rs, source =>
    let (text, count, _) := renameOne r guarded source
    let (last, counts) := renameInTurn guarded rs text
    (last, count :: counts)

/-- What rules may be used in turns: their names are plain, each old name has one rule, and no
conflict of theirs blocks. -/
structure TakesTurns (guarded : List String) (rules : List Rule) : Prop where
  plain : ∀ r ∈ rules, isPlainName r.old = true ∧ isPlainName r.new = true
  distinct : (rules.map Rule.old).Nodup
  peaceful : Peaceful guarded rules

/-- What a turn of the rule `r` makes of a fragment, `rs` being the other rules. Either the rule
renames the fragment, and none of the others is for it then, or the fragment keeps its text and the
others do with it what they did before. -/
inductive Turn (guarded : List String) (r : Rule) (rs : List Rule) (f f' : Fragment) : Prop
  | taken : ruling? [r] guarded f = some r → ruling? (r :: rs) guarded f = some r →
    ruling? rs guarded f' = none → f'.text = r.new.toList → Turn guarded r rs f f'
  | left : ruling? [r] guarded f = none → ruling? (r :: rs) guarded f ≠ some r →
    ruling? rs guarded f' = ruling? (r :: rs) guarded f → f'.text = f.text → Turn guarded r rs f f'

section

variable {guarded : List String} {r : Rule} {rs rules : List Rule} {f f' : Fragment}

/-! ### Rules for different names -/

theorem nodup_key_of_nodup_old (h : (rules.map Rule.old).Nodup) : (rules.map Rule.key).Nodup := by
  apply List.Nodup.of_map Prod.fst
  rw [List.map_map]
  exact h

/-- When each old name has one rule, a place is renamed by the rule for its name or by none. -/
theorem ruling?_place_eq_some_iff (h : (rules.map Rule.old).Nodup) {s : Site} :
    ruling? rules guarded (.place s) = some r ↔
      s.name ∉ guarded ∧ r ∈ rules ∧ r.old = s.name ∧ r.scope.admits s = true := by
  have hcharge : InCharge rules s r ↔ r ∈ rules ∧ r.old = s.name ∧ r.scope.admits s = true := by
    constructor
    · intro hr
      exact hr.1
    · intro hr
      refine ⟨hr, ?_⟩
      intro r' hr' hold _
      have heq : r' = r := List.inj_on_of_nodup_map h hr' hr.1 (hold.trans hr.2.1.symm)
      rw [heq]
  rw [← hcharge, ← map_fst_select?_eq_some_iff (nodup_key_of_nodup_old h)]
  by_cases hg : s.name ∈ guarded <;> simp [ruling?, hg]

theorem ruling?_singleton_eq_some_iff {s : Site} :
    ruling? [r] guarded (.place s) = some r ↔
      s.name ∉ guarded ∧ r.old = s.name ∧ r.scope.admits s = true := by
  have hone : ([r].map Rule.old).Nodup := List.nodup_singleton _
  rw [ruling?_place_eq_some_iff hone]
  simp

theorem text_of_matches (hf : f.Matches Eq (nameAfter rules guarded) f') :
    f'.text = rendered rules guarded f := by
  rw [← redraw_nameAfter]
  cases hf with
  | kept t => rfl
  | place hname => simp only [Fragment.text, Fragment.redraw, hname]

theorem Peaceful.of_subset (hp : Peaceful guarded rules) (h : rs ⊆ rules) : Peaceful guarded rs := by
  constructor
  · intro a ha b hb
    exact hp.chain a (h ha) b (h hb)
  · intro a ha b hb
    exact hp.target a (h ha) b (h hb)
  · intro a ha b hb
    exact hp.source a (h ha) b (h hb)
  · intro a ha
    exact hp.unguarded a (h ha)

namespace TakesTurns

theorem tail (h : TakesTurns guarded (r :: rs)) : TakesTurns guarded rs where
  plain q hq := h.plain q (List.mem_cons_of_mem _ hq)
  distinct := (List.nodup_cons.1 h.distinct).2
  peaceful := h.peaceful.of_subset (List.subset_cons_self r rs)

theorem perm {rules' : List Rule} (h : TakesTurns guarded rules) (hperm : rules'.Perm rules) :
    TakesTurns guarded rules' where
  plain q hq := h.plain q (hperm.subset hq)
  distinct := (hperm.map Rule.old).nodup_iff.2 h.distinct
  peaceful := h.peaceful.of_subset hperm.subset

/-! ### A turn -/

theorem matches_turn (h : TakesTurns guarded (r :: rs)) (source : String) :
    List.Forall₂ (Fragment.Matches Eq (nameAfter [r] guarded)) (fragmentsOf source.toList)
      (fragmentsOf (rename [r] guarded source).text.toList) := by
  obtain ⟨hold, hnew⟩ := h.plain r List.mem_cons_self
  apply matches_rename coherent_eq
  · intro q hq _
    rw [List.mem_singleton.1 hq]
    exact Rule.tame_of_isPlainName hold hnew
  · intro q hq
    rw [List.mem_singleton.1 hq]
    exact startsWithLetter_of_isPlainName hold

/-- No other rule is for a place that the rule has renamed, because it would be for a name that the
rule writes. -/
theorem turn_of_renamed (h : TakesTurns guarded (r :: rs)) {s s' : Site}
    (hf : (Fragment.place s).Matches Eq (nameAfter [r] guarded) (.place s'))
    (hr : ruling? [r] guarded (.place s) = some r) : Turn guarded r rs (.place s) (.place s') := by
  have htext := text_of_matches hf
  rw [rendered_eq, hr] at htext
  have hnew : s'.name = r.new := String.toList_inj.1 htext
  obtain ⟨hg, hold, hadm⟩ := ruling?_singleton_eq_some_iff.1 hr
  refine .taken hr ?_ ?_ htext
  · exact (ruling?_place_eq_some_iff h.distinct).2 ⟨hg, List.mem_cons_self, hold, hadm⟩
  · rw [Option.eq_none_iff_forall_ne_some]
    intro q hq
    obtain ⟨-, hmem, hqold, hqadm⟩ := (ruling?_place_eq_some_iff h.tail.distinct).1 hq
    rw [admits_of_matches hf] at hqadm
    apply h.peaceful.chain r List.mem_cons_self q (List.mem_cons_of_mem _ hmem)
    · exact Scope.overlaps_of_admits hadm hqadm
    · rw [hqold, hnew]

/-- A rule for a place that has kept its name is still for it. -/
theorem turn_of_kept (h : TakesTurns guarded (r :: rs)) {s s' : Site}
    (hf : (Fragment.place s).Matches Eq (nameAfter [r] guarded) (.place s'))
    (hr : ruling? [r] guarded (.place s) ≠ some r) : Turn guarded r rs (.place s) (.place s') := by
  have hnone : ruling? [r] guarded (.place s) = none := by
    rw [Option.eq_none_iff_forall_ne_some]
    intro q hq
    obtain ⟨i, hi, -⟩ := rule?_of_ruling? hq
    rw [List.mem_singleton.1 (List.mem_of_getElem? hi)] at hq
    exact hr hq
  have htext := text_of_matches hf
  rw [rendered_eq, hnone] at htext
  have hsame : s'.name = s.name := String.toList_inj.1 htext
  rw [Ne, ruling?_singleton_eq_some_iff] at hr
  refine .left hnone ?_ ?_ htext
  · intro hq
    obtain ⟨hg, -, hold, hadm⟩ := (ruling?_place_eq_some_iff h.distinct).1 hq
    exact hr ⟨hg, hold, hadm⟩
  · apply Option.ext
    intro q
    rw [ruling?_place_eq_some_iff h.tail.distinct, ruling?_place_eq_some_iff h.distinct, hsame,
      admits_of_matches hf, List.mem_cons]
    constructor
    · rintro ⟨hg, hmem, hold, hadm⟩
      exact ⟨hg, .inr hmem, hold, hadm⟩
    · rintro ⟨hg, rfl | hmem, hold, hadm⟩
      · exact absurd ⟨hg, hold, hadm⟩ hr
      · exact ⟨hg, hmem, hold, hadm⟩

theorem turn (h : TakesTurns guarded (r :: rs)) (hf : f.Matches Eq (nameAfter [r] guarded) f') :
    Turn guarded r rs f f' := by
  have hmatches := hf
  cases hf with
  | kept t =>
    apply Turn.left
    · rfl
    · intro hkept
      cases hkept
    · rfl
    · rfl
  | @place s s' =>
    by_cases hr : ruling? [r] guarded (.place s) = some r
    · exact h.turn_of_renamed hmatches hr
    · exact h.turn_of_kept hmatches hr

theorem turns (h : TakesTurns guarded (r :: rs)) (source : String) :
    List.Forall₂ (Turn guarded r rs) (fragmentsOf source.toList)
      (fragmentsOf (rename [r] guarded source).text.toList) :=
  (h.matches_turn source).imp fun _ _ hf => h.turn hf

/-- What is left after a turn becomes under the other rules what the source becomes under all. -/
theorem text_turn (h : TakesTurns guarded (r :: rs)) (source : String) :
    (rename rs guarded (rename [r] guarded source).text).text =
      (rename (r :: rs) guarded source).text := by
  symm
  apply text_rename_congr
  apply (h.turns source).imp
  intro f f' hturn
  rw [rendered_eq, rendered_eq]
  cases hturn with
  | taken _ hall hrest htext => rw [hall, hrest, htext]
  | left _ _ hrest htext => rw [hrest, htext]

theorem occurrences_turn (h : TakesTurns guarded (r :: rs)) (source : String) :
    (rename [r] guarded source).occurrences = placesOf (r :: rs) guarded source r := by
  rw [occurrences_rename_eq, placesOf]
  apply List.countP_congr
  intro f hf
  obtain ⟨f', hturn⟩ := exists_of_forall₂ (h.turns source).flip hf
  rw [decide_eq_true_iff]
  cases hturn with
  | taken hone hall _ _ => simp [hone, hall]
  | left hone hall _ _ => simp [hone, hall]

theorem placesOf_turn (h : TakesTurns guarded (r :: rs)) (source : String) {q : Rule}
    (hq : q ∈ rs) :
    placesOf rs guarded (rename [r] guarded source).text q = placesOf (r :: rs) guarded source q := by
  have hne : q ≠ r := by
    rintro rfl
    exact (List.nodup_cons.1 h.distinct).1 (List.mem_map_of_mem hq)
  unfold placesOf
  generalize hfs : fragmentsOf source.toList = fs
  generalize hfs' : fragmentsOf (rename [r] guarded source).text.toList = fs'
  have hturns := h.turns source
  rw [hfs, hfs'] at hturns
  clear hfs hfs'
  induction hturns with
  | nil => rfl
  | cons hturn _ ih =>
    rw [List.countP_cons, List.countP_cons, ih]
    cases hturn with
    | taken _ hall hrest _ => simp [hall, hrest, hne.symm]
    | left _ _ hrest _ => rw [hrest]

/-! ### One turn after the other -/

/-- Rules in turns do what they do at once. -/
theorem renameInTurn_eq_rename (h : TakesTurns guarded rules) (source : String) :
    renameInTurn guarded rules source =
      ((rename rules guarded source).text, rules.map (placesOf rules guarded source)) := by
  induction rules generalizing source with
  | nil => rw [renameInTurn, rename_nil, List.map_nil]
  | cons r rs ih =>
    have hcounts : rs.map (placesOf rs guarded (rename [r] guarded source).text) =
        rs.map (placesOf (r :: rs) guarded source) := by
      apply List.map_congr_left
      intro q hq
      exact h.placesOf_turn source hq
    simp only [renameInTurn, renameOne]
    rw [ih h.tail, h.text_turn, h.occurrences_turn, hcounts, List.map_cons]

end TakesTurns

end

/-- **Rules one after the other.** With plain names, of which no two old ones are the same, and
without conflicts that block, the rules of a set in turns, in any order, give the text that they
give at once, and each rule renames in its turn as many places as it does at once. -/
theorem renameInTurn_eq {rules : List Rule} {extra : List String} {set : RuleSet}
    (hset : RuleSet.ofRules rules extra = .ok set) (guarded : List String)
    (hplain : ∀ r ∈ set.rules, isPlainName r.old = true ∧ isPlainName r.new = true)
    (hdistinct : (set.rules.map Rule.old).Nodup)
    (hconf : ∀ c ∈ conflicts guarded.contains set.rules, c.blocks = false)
    {order : List Rule} (horder : order.Perm set.rules) (source : String) :
    let turns := renameInTurn guarded order source
    let atOnce := rename set.rules guarded source
    turns.1 = atOnce.text ∧ turns.2.length = order.length ∧
      ∀ (i j : Nat) (r : Rule), order[i]? = some r → set.rules[j]? = some r →
        ∃ count, turns.2[i]? = some count ∧ atOnce.hits[j]? = some count := by
  intro turns atOnce
  obtain ⟨hfit, rfl⟩ := RuleSet.ofRules_eq_ok_iff.1 hset
  have htakes : TakesTurns guarded rules := ⟨hplain, hdistinct, .of_conflicts hfit hconf⟩
  have hkeys : (rules.map Rule.key).Nodup := nodup_key_of_nodup_old hdistinct
  have hturns : turns =
      ((rename order guarded source).text, order.map (placesOf order guarded source)) :=
    (htakes.perm horder).renameInTurn_eq_rename source
  rw [text_rename_perm hkeys horder, placesOf_perm hkeys horder] at hturns
  have hhits : atOnce.hits = rules.map (placesOf rules guarded source) := hits_rename_eq hkeys source
  rw [hturns, hhits]
  refine ⟨rfl, List.length_map _, ?_⟩
  intro i j r hi hj
  refine ⟨placesOf rules guarded source r, ?_, ?_⟩
  · rw [List.getElem?_map, hi, Option.map_some]
  · rw [List.getElem?_map, hj, Option.map_some]

/-- Rules of all four scopes in the opposite order, of which one is kept from its places. -/
theorem renameInTurn_all_scopes : ∃ set, RuleSet.ofRules
      [⟨"userId", "accountId", .identifier⟩, ⟨"label", "title", .jsxAttribute⟩,
        ⟨"color", "tint", .objectKey⟩, ⟨"draft", "pending", .stringLiteral⟩] [] = .ok set ∧
    (∀ r ∈ set.rules, isPlainName r.old = true ∧ isPlainName r.new = true) ∧
    (set.rules.map Rule.old).Nodup ∧
    (∀ c ∈ conflicts ["color"].contains set.rules, c.blocks = false) ∧
    set.rules.reverse.Perm set.rules ∧
    let source := "<Row label='draft'\n n=\x7b\x7b color: userId / 2, k: userId \x7d\x7d />"
    let turns := renameInTurn ["color"] set.rules.reverse source
    let atOnce := rename set.rules ["color"] source
    turns.2 = [1, 0, 1, 2] ∧
      turns.1 = atOnce.text ∧ turns.2.length = set.rules.reverse.length ∧
        ∀ (i j : Nat) (r : Rule), set.rules.reverse[i]? = some r → set.rules[j]? = some r →
          ∃ count, turns.2[i]? = some count ∧ atOnce.hits[j]? = some count := by
  have hset : RuleSet.ofRules
      [⟨"userId", "accountId", .identifier⟩, ⟨"label", "title", .jsxAttribute⟩,
        ⟨"color", "tint", .objectKey⟩, ⟨"draft", "pending", .stringLiteral⟩] [] =
      .ok { rules := _, extra := [] } := rfl
  refine ⟨_, hset, by decide, by decide, by decide, List.reverse_perm _, by decide +kernel, ?_⟩
  exact renameInTurn_eq hset ["color"] (by decide) (by decide) (by decide) (List.reverse_perm _) _

end Renaming
