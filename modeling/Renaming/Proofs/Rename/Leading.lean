import Renaming.Proofs.Rename.Again
import Renaming.Proofs.Source.Frames

/-!
Rules that are used. Of the rules for one name in one scope only the first is ever used, and it is
used if the name is not protected: such rules are leading (`Leading`). The rule that renames a place
is one (`Chosen.leading`), and a leading rule renames the places for which no other scope has a rule
that goes before it (`Leading.exists_chosen`).

Short texts are renamed here with leading rules: `Leading.nameAfter_word`,
`Leading.nameAfter_string` and `Leading.text_touched`.
-/

namespace Renaming

open Renaming.Source

/-- The rule is the first one of the list for its old name and the scope, and the name is not
protected. -/
structure Leading (rules : List Rule) (guarded : List String) (scope : Scope) (r : Rule) : Prop where
  first : ∃ i, ruleFor? rules r.old scope = some (r, i)
  unguarded : r.old ∉ guarded

section

variable {rules : List Rule} {guarded : List String} {scope : Scope} {r : Rule} {s : Site}

/-! ### Leading rules and places -/

theorem Leading.mem (h : Leading rules guarded scope r) : r ∈ rules := by
  obtain ⟨i, hi⟩ := h.first
  exact List.mem_of_getElem? (ruleFor?_eq_some_iff.1 hi).1.1

theorem Leading.scope_eq (h : Leading rules guarded scope r) : r.scope = scope := by
  obtain ⟨i, hi⟩ := h.first
  exact (ruleFor?_eq_some_iff.1 hi).1.2.2

/-- A leading rule for words writes a name in place of a name. -/
theorem Leading.isName (h : Leading rules guarded .identifier r) (hfit : r.unfit? = none) :
    IsName r.old.toList ∧ IsName r.new.toList := by
  apply Rule.isName_of_fit hfit
  simp [h.scope_eq]

/-- The rule that renames a place is leading. -/
theorem Chosen.leading {i : Nat} (h : Chosen rules s i r) (hg : s.name ∉ guarded) :
    Leading rules guarded r.scope r := by
  obtain ⟨⟨hi, hold, hadm⟩, hfirst⟩ := h
  refine ⟨⟨i, ruleFor?_eq_some_iff.2 ⟨⟨hi, rfl, rfl⟩, ?_⟩⟩, by rwa [hold]⟩
  intro j r' hj hold' hscope
  have hbefore := hfirst j r' ⟨hj, hold'.trans hold, by rwa [hscope]⟩
  unfold GoesBefore at hbefore
  rw [hscope] at hbefore
  omega

theorem Leading.exists_applies (h : Leading rules guarded scope r) (hname : s.name = r.old)
    (hadm : scope.admits s = true) : ∃ i, Applies rules s i r := by
  obtain ⟨i, hi⟩ := h.first
  obtain ⟨⟨hget, -, hscope⟩, -⟩ := ruleFor?_eq_some_iff.1 hi
  exact ⟨i, hget, hname.symm, by rwa [hscope]⟩

theorem Leading.exists_chosen (h : Leading rules guarded scope r) (hname : s.name = r.old)
    (hadm : scope.admits s = true) (hscope : ∀ i q, Chosen rules s i q → q.scope = scope) :
    ∃ i, Chosen rules s i r := by
  obtain ⟨j, happ⟩ := h.exists_applies hname hadm
  obtain ⟨q, i, hsel⟩ := exists_select? happ
  have hq := chosen_of_select? hsel
  have hqscope := hscope i q hq
  obtain ⟨k, hk⟩ := h.first
  obtain ⟨⟨hget, hold, hrscope⟩, hleast⟩ := ruleFor?_eq_some_iff.1 hk
  -- both rules are the first one for the name in the scope
  have hki : k ≤ i := hleast i q hq.1.1 (hq.1.2.1.trans hname) hqscope
  have hik := hq.2 k r ⟨hget, hname.symm, by rwa [hrscope]⟩
  rw [hqscope, hrscope] at hik
  unfold GoesBefore at hik
  obtain rfl : k = i := by omega
  obtain rfl : r = q := Option.some.inj (hget.symm.trans hq.1.1)
  exact ⟨k, hq⟩

theorem Leading.exists_chosen_string (h : Leading rules guarded .stringLiteral r) (before : List Mark)
    (after : List Char) : ∃ i, Chosen rules ⟨r.old, false, before, after⟩ i r := by
  apply h.exists_chosen rfl rfl
  intro i q hq
  obtain ⟨j, happ⟩ := h.exists_applies (s := ⟨r.old, false, before, after⟩) rfl rfl
  have hbefore := hq.2 j r happ
  rw [h.scope_eq] at hbefore
  -- no scope goes before that of strings
  cases hs : q.scope <;> simp [hs, GoesBefore, Scope.rank] at hbefore ⊢

/-! ### New names -/

theorem Leading.nameAfter_string (h : Leading rules guarded .stringLiteral r) (before : List Mark)
    (after : List Char) : nameAfter rules guarded ⟨r.old, false, before, after⟩ = r.new := by
  obtain ⟨i, hi⟩ := h.exists_chosen_string before after
  exact nameAfter_of_chosen hi h.unguarded

theorem Leading.nameAfter_word (h : Leading rules guarded .identifier r) {after : List Char}
    (hafter : ¬ Separates after) (before : List Mark) :
    nameAfter rules guarded ⟨r.old, true, before, after⟩ = r.new := by
  obtain ⟨i, hi⟩ := h.exists_chosen (s := ⟨r.old, true, before, after⟩) rfl rfl (by
    intro i q hq
    obtain ⟨hkey, hattr⟩ := Site.not_key_of_not_separates (s := ⟨r.old, true, before, after⟩) hafter
    exact Scope.eq_identifier hq.1.2.2 rfl hkey hattr)
  exact nameAfter_of_chosen hi h.unguarded

/-- Fit rules leave strings alone that have quotes, backslashes or line ends in them. -/
theorem keepsQuotes_nameAfter (hfit : ∀ r ∈ rules, r.unfit? = none) :
    KeepsQuotes (nameAfter rules guarded) := by
  rintro s hcode ⟨c, hc, hescape⟩
  have hcases : nameAfter rules guarded s = s.name ∨ _ := nameAfter_cases s
  refine hcases.resolve_right ?_
  rintro ⟨i, q, hq, -, -⟩
  obtain ⟨hi, hold, -⟩ := hq.1
  have hplain : needsEscape c = false := by
    rw [← hold] at hc
    exact (Rule.plain_of_fit (hfit q (List.mem_of_getElem? hi))).1 c hc
  rw [hplain] at hescape
  cases hescape

/-- A source of a name behind letters, in front of tokens that stay. -/
theorem Leading.text_touched (h : Leading rules guarded .identifier r) (hold : IsName r.old.toList)
    {p tail : List Char} (hpr : Touches p r.old.toList) {ps : List Piece}
    (htokens : tokensOf (lead p ++ (r.old.toList ++ tail)) = touched p r.old.toList ++ ps)
    (htail : ¬ Separates tail) :
    (rename rules guarded (String.ofList (lead p ++ (r.old.toList ++ tail)))).text.toList =
      lead p ++ (r.new.toList ++ textOf (redrawn (nameAfter rules guarded)
        (marksOf (touched p r.old.toList)).reverse ps)) := by
  have hps : textOf ps = tail := by
    have h := congrArg textOf htokens
    rw [tokensOf, textOf_tokens, textOf_append, textOf_touched, ← List.append_assoc] at h
    exact (List.append_cancel_left h).symm
  rw [text_rename_eq, String.toList_ofList, htokens]
  apply textOf_redrawn_touched hpr hold
  intro before
  rw [hps]
  exact h.nameAfter_word htail before

end

end Renaming
