import Renaming.Proofs.Rename.Leading

/-!
Rule sets that do not keep the context. For each way in which a new name changes the meaning of
what follows there is a short source that a second renaming changes: the first renaming writes the
name, and a place comes to light behind it that the second one renames.

* `RuleSet.keepsContext_of_stable`: when every source is stable, the set keeps the context.
* `RuleSet.stable_iff`: among the sets that open no substitution, these are all.
-/

namespace Renaming

open Renaming.Source

section

variable {set : RuleSet}

/-! ### What the first renaming does -/

theorem RuleSet.Effective.leading (hp : Peaceful set.guarded set.rules) {scope : Scope} {r : Rule}
    (hr : set.Effective scope r) : Leading set.rules set.guarded scope r := by
  refine ⟨?_, hr.unguarded⟩
  obtain ⟨i, hi⟩ := List.mem_iff_getElem?.1 hr.mem
  cases hf : ruleFor? set.rules r.old scope with
  | none =>
    have hnone := List.find?_eq_none.1 hf (r, i) (List.mem_zipIdx_iff_getElem?.2 hi)
    simp [hr.scope] at hnone
  | some q =>
    obtain ⟨q, j⟩ := q
    obtain ⟨⟨hj, hold, hscope⟩, -⟩ := ruleFor?_eq_some_iff.1 hf
    have hqr : q = r := hp.source q (List.mem_of_getElem? hj) r hr.mem hold (hscope.trans hr.scope.symm)
    exact ⟨j, by rw [hqr]⟩

theorem nameAfter_of_lonely {y : Rule} (hy : set.Lonely y) {s : Site} (hname : s.name = y.old)
    (hcode : s.inCode = true) (hkey : s.isKey = false) (hattr : s.isAttribute = false) :
    nameAfter set.rules set.guarded s = s.name := by
  have hcases : nameAfter set.rules set.guarded s = s.name ∨ _ := nameAfter_cases s
  rcases hcases with h | ⟨i, q, hq, -, -⟩
  · exact h
  · have hscope := Scope.eq_identifier hq.1.2.2 hcode hkey hattr
    exact absurd (hq.1.2.1.trans hname) (hy q (List.mem_of_getElem? hq.1.1) hscope)

theorem RuleSet.Effective.isName {scope : Scope} (hfit : ∀ r ∈ set.rules, r.unfit? = none)
    {r : Rule} (hr : set.Effective scope r) (hs : scope ≠ .stringLiteral) :
    IsName r.old.toList ∧ IsName r.new.toList :=
  Rule.isName_of_fit (hfit r hr.mem) (by rwa [hr.scope])

/-- A source is not stable when the second renaming finds a place that a rule applies to. -/
theorem RuleSet.not_stable_of_place {source : String} {scope : Scope} {r : Rule}
    (hr : set.Effective scope r)
    (h : ∃ s, .place s ∈ fragmentsOf (rename set.rules set.guarded source).text.toList ∧
      s.name = r.old ∧ scope.admits s = true) : ¬ set.Stable source := by
  rintro ⟨hzero, -⟩
  obtain ⟨s, hs, hname, hadm⟩ := h
  obtain ⟨j, hj⟩ := List.mem_iff_getElem?.1 hr.mem
  obtain ⟨q, i, hq⟩ := exists_select? (s := s) ⟨hj, hname.symm, by rwa [hr.scope]⟩
  exact occurrences_ne_zero hs (chosen_of_select? hq) (by rw [hname]; exact hr.unguarded) hzero

/-! ### Sources that are not stable -/

variable (hp : Peaceful set.guarded set.rules) (hfit : ∀ r ∈ set.rules, r.unfit? = none)

include hp hfit

theorem text_rename_touched {r : Rule} (hr : set.Effective .identifier r) {p tail : List Char}
    (hpr : Touches p r.old.toList) {ps : List Piece}
    (htokens : tokensOf (lead p ++ (r.old.toList ++ tail)) = touched p r.old.toList ++ ps)
    (htail : ¬ Separates tail)
    (hstay : textOf (redrawn (nameAfter set.rules set.guarded)
      (marksOf (touched p r.old.toList)).reverse ps) = tail) :
    (rename set.rules set.guarded
      (String.ofList (lead p ++ (r.old.toList ++ tail)))).text.toList =
        lead p ++ (r.new.toList ++ tail) := by
  rw [(hr.leading hp).text_touched (hr.isName hfit nofun).1 hpr htokens htail, hstay]

theorem not_stable_quoteTail {r : Rule} (hr : set.Effective .identifier r) {p : List Char}
    (hpr : Touches p r.old.toList) (hold : regexKeywords.contains (joined p r.old) = false)
    (hnew : regexKeywords.contains (joined p r.new) = true) :
    ¬ set.Stable (String.ofList (lead p ++ (r.old.toList ++ quoteTail r.old.toList))) := by
  obtain ⟨ho, hn⟩ := hr.isName hfit nofun
  have hfirst := tokens_touched (y := quoteTail r.old.toList) hpr.flags ho (isWord_head_blank _)
  rw [tokens_quoteTail ho _ ((operandAfter_start hpr.flags ho).trans hold)] at hfirst
  have hopen : ∀ q m, isQuote q = true → '\'' :: '/' :: ' ' :: r.old.toList ≠ q :: (m ++ [q]) :=
    not_closed_of_isName ho ['\'', '/', ' ']
  have htext := text_rename_touched hp hfit hr hpr hfirst
    (not_separates_of_blank (not_separates_of_ne (by decide) (by decide))) (by
      simp [redrawn, redraw_mark isWord_blank, redraw_mark isWord_slash, redraw_literal hopen,
        quoteTail])
  have hsecond := tokens_touched (y := quoteTail r.old.toList) hpr.flags hn (isWord_head_blank _)
  rw [tokens_quoteTail_operand ho _ ((operandAfter_start hpr.flags hn).trans hnew)] at hsecond
  refine RuleSet.not_stable_of_place hr ?_
  rw [htext]
  refine exists_place_of_name ho ?_
  rw [hsecond]
  simp

theorem not_stable_slashTail {r : Rule} (hr : set.Effective .identifier r) {p : List Char}
    (hpr : Touches p r.old.toList) (hold : regexKeywords.contains (joined p r.old) = true)
    (hnew : regexKeywords.contains (joined p r.new) = false) :
    ¬ set.Stable (String.ofList (lead p ++ (r.old.toList ++ slashTail r.old.toList))) := by
  obtain ⟨ho, hn⟩ := hr.isName hfit nofun
  have hfirst := tokens_touched (y := slashTail r.old.toList) hpr.flags ho (isWord_head_blank _)
  rw [tokens_slashTail_operand ho _ ((operandAfter_start hpr.flags ho).trans hold)] at hfirst
  have htext := text_rename_touched hp hfit hr hpr hfirst
    (not_separates_of_blank (not_separates_of_ne (by decide) (by decide))) (by
      simp [redrawn, redraw_mark isWord_blank, redraw_slash, slashTail])
  have hsecond := tokens_touched (y := slashTail r.old.toList) hpr.flags hn (isWord_head_blank _)
  refine RuleSet.not_stable_of_place hr ?_
  rw [htext]
  refine exists_place_of_name ho ?_
  rw [hsecond]
  exact List.mem_append_right _
    (mem_tokens_slashTail ho _ ((operandAfter_start hpr.flags hn).trans hnew))

theorem not_stable_flags {r z : Rule} (hr : set.Effective .identifier r)
    (hz : set.Effective .identifier z) (hold : startsWithLetter r.old.toList = false)
    (hrest : z.old.toList = r.new.toList.dropWhile isFlag) :
    ¬ set.Stable (String.ofList ('/' :: 'x' :: '/' :: r.old.toList)) := by
  obtain ⟨ho, hn⟩ := hr.isName hfit nofun
  have hzo := (hz.isName hfit nofun).1
  have hfirst : tokensOf ('/' :: 'x' :: '/' :: r.old.toList) =
      [⟨.literal, ['/', 'x', '/']⟩, ⟨.code, r.old.toList⟩] := by
    obtain ⟨c, t, ht, -⟩ := ho.head
    rw [tokens_flags ho, ht]
    exact Piece.absorb_of_isFlag (by simpa [startsWithLetter, ht] using hold) _ _
  have htext : (rename set.rules set.guarded
      (String.ofList ('/' :: 'x' :: '/' :: r.old.toList))).text.toList =
      '/' :: 'x' :: '/' :: r.new.toList := by
    rw [text_rename_eq, String.toList_ofList, hfirst]
    simp [redrawn, redraw_slash, redraw_name ho, (hr.leading hp).nameAfter_word not_separates_nil]
  refine RuleSet.not_stable_of_place hz ?_
  rw [htext]
  refine exists_place_of_name hzo ?_
  rw [tokens_flags hn, Piece.absorb, ← hrest, if_neg hzo.ne_nil]
  simp

theorem not_stable_fieldTail {r y : Rule} (hr : set.Effective .identifier r)
    (hy : set.Effective .jsxAttribute y) (hlonely : set.Lonely y)
    (hold : declarationKeywords.contains r.old = true)
    (hnew : declarationKeywords.contains r.new = false) :
    ¬ set.Stable (String.ofList ('<' :: (r.old.toList ++ fieldTail y.old.toList))) := by
  obtain ⟨ho, hn⟩ := hr.isName hfit nofun
  have hyo := (hy.isName hfit nofun).1
  have htokens : ∀ {v : List Char}, IsName v → tokensOf ('<' :: (v ++ fieldTail y.old.toList)) =
      [⟨.code, ['<']⟩, ⟨.code, v⟩, ⟨.code, [' ']⟩] ++ ⟨.code, y.old.toList⟩ :: [⟨.code, ['=']⟩] := by
    intro v hv
    rw [tokensOf, tokens_mark (c := '<') _ (by decide) (by simp), tokens_word_append
      (y := fieldTail y.old.toList) _ hv.ne_nil hv.isWord (isWord_head_blank _), tokens_fieldTail hyo]
    rfl
  have hattr := isAttribute_fieldTail ho (w := y.old)
  rw [hold] at hattr
  have htext : (rename set.rules set.guarded
      (String.ofList ('<' :: (r.old.toList ++ fieldTail y.old.toList)))).text.toList =
      '<' :: (r.new.toList ++ fieldTail y.old.toList) := by
    rw [text_rename_eq, String.toList_ofList, htokens ho]
    simp only [List.cons_append, List.nil_append, redrawn, redraw_name ho, redraw_name hyo,
      redraw_mark isWord_blank, redraw_mark (c := '<') (by decide),
      redraw_mark (c := '=') (by decide)]
    rw [(hr.leading hp).nameAfter_word ?_, nameAfter_of_lonely hlonely rfl rfl rfl (by simpa using hattr)]
    · simp [textOf, fieldTail]
    · exact not_separates_of_blank (not_separates_name hyo _)
  refine RuleSet.not_stable_of_place hy ⟨_, htext ▸ place_mem_fragmentsOf hyo (htokens hn), rfl, ?_⟩
  exact (isAttribute_fieldTail hn).trans (by rw [hnew]; rfl)

theorem not_stable_elementTail {r y : Rule} (hr : set.Effective .identifier r)
    (hy : set.Effective .jsxAttribute y) (hlonely : set.Lonely y) {p : List Char}
    (hpr : Touches p r.old.toList) (hold : joined p r.old ≠ "return")
    (hnew : joined p r.new = "return") :
    ¬ set.Stable (String.ofList (lead p ++ (r.old.toList ++ elementTail y.old.toList))) := by
  obtain ⟨ho, hn⟩ := hr.isName hfit nofun
  have hyo := (hy.isName hfit nofun).1
  have htokens : ∀ {v : List Char}, IsName v →
      tokensOf (lead p ++ (v ++ elementTail y.old.toList)) =
        elementTokens (touched p v) y.old ++ ⟨.code, y.old.toList⟩ :: [⟨.code, ['=']⟩] := by
    intro v hv
    have h := tokens_touched (y := elementTail y.old.toList) hpr.flags hv (isWord_head_blank _)
    rw [tokens_elementTail hyo] at h
    rw [h, elementTokens, List.append_assoc]
    rfl
  have hattr := isAttribute_elementTail ho hyo hpr.flags textOf_touched
  rw [beq_eq_false_iff_ne.2 hold] at hattr
  have hfirst := htokens ho
  rw [elementTokens, List.append_assoc] at hfirst
  have hstay : textOf (redrawn (nameAfter set.rules set.guarded)
      (marksOf (touched p r.old.toList)).reverse ([⟨.code, [' ']⟩, ⟨.code, ['<']⟩,
        ⟨.code, y.old.toList⟩, ⟨.code, [' ']⟩, ⟨.code, ['{']⟩, ⟨.code, ['}']⟩, ⟨.code, [' ']⟩] ++
          ⟨.code, y.old.toList⟩ :: [⟨.code, ['=']⟩])) = elementTail y.old.toList := by
    simp only [List.cons_append, List.nil_append, redrawn, redraw_name hyo,
      redraw_mark isWord_blank, redraw_mark (c := '<') (by decide),
      redraw_mark (c := '=') (by decide), redraw_mark (c := '{') (by decide),
      redraw_mark (c := '}') (by decide)]
    rw [nameAfter_of_lonely hlonely rfl rfl (Site.not_key_of_not_separates ?_).1
        (Site.not_key_of_not_separates ?_).2,
      nameAfter_of_lonely hlonely rfl rfl rfl (by simpa [elementTokens, marksOf] using hattr)]
    · simp [textOf, elementTail, fieldTail]
    all_goals exact not_separates_of_blank (not_separates_of_ne (by decide) (by decide))
  have htext := text_rename_touched hp hfit hr hpr hfirst
    (not_separates_of_blank (not_separates_of_ne (by decide) (by decide))) hstay
  refine RuleSet.not_stable_of_place hy ⟨_, htext ▸ place_mem_fragmentsOf hyo (htokens hn), rfl, ?_⟩
  exact (isAttribute_elementTail hn hyo hpr.flags textOf_touched).trans (beq_iff_eq.2 hnew)

theorem not_stable_frameText {r : Rule} (hr : set.Effective .stringLiteral r) {k b : Bool}
    {mid : List Char} (hold : sweep k r.old.toList = some b)
    (hmid : mid = [] ∨ mid = slashString ∧ b = true)
    (hnew : stringOf r.old.toList ∈ tokensOf (frameText k r.new.toList mid r.old.toList)) :
    ¬ set.Stable (String.ofList (frameText k r.old.toList mid r.old.toList)) := by
  have hplain := (Rule.plain_of_fit (hfit r hr.mem)).1
  obtain ⟨b', hb', -⟩ : ∃ b', sweep true r.old.toList = some b' ∧ _ :=
    sweep_mono (fun _ => rfl) hold
  have htext : (rename set.rules set.guarded
      (String.ofList (frameText k r.old.toList mid r.old.toList))).text.toList =
      frameText k r.new.toList mid r.old.toList := by
    rw [text_rename_eq, String.toList_ofList, tokens_frameText hplain hplain hold hb' hmid]
    exact textOf_redrawn_frameText (keepsQuotes_nameAfter hfit) hplain (hr.leading hp).nameAfter_string
      (hmid.imp_right And.left)
  refine RuleSet.not_stable_of_place hr ?_
  rw [htext]
  obtain ⟨s, hs, hname, hcode⟩ := exists_place_of_string (by decide) hplain hnew
  exact ⟨s, hs, hname, by rw [Scope.admits, hcode]; rfl⟩

theorem RuleSet.keepsContext_of_stable (hstable : ∀ source, set.Stable source) :
    set.KeepsContext where
  frames r hr := by
    intro k b hold
    obtain ⟨hplain, hplain'⟩ := Rule.plain_of_fit (hfit r hr.mem)
    obtain ⟨b₁, hb₁, -⟩ : ∃ b₁, sweep true r.old.toList = some b₁ ∧ _ :=
      sweep_mono (fun _ => rfl) hold
    cases hnew : sweep k r.new.toList with
    | none =>
      exact absurd (hstable _) (not_stable_frameText hp hfit hr hold (.inl rfl)
        (mem_tokens_frameText hplain' hplain hnew hb₁))
    | some b' =>
      refine ⟨b', rfl, fun hb => ?_⟩
      rw [← Bool.not_eq_false]
      rintro rfl
      exact not_stable_frameText hp hfit hr hold (.inr ⟨rfl, hb⟩)
        (mem_tokens_frameText_slashString hplain' hplain hnew) (hstable _)
  regex r hr p hpr := by
    rw [← List.contains_iff_mem, ← List.contains_iff_mem]
    cases hold : regexKeywords.contains (joined p r.old) <;>
      cases hnew : regexKeywords.contains (joined p r.new)
    · rfl
    · exact absurd (hstable _) (not_stable_quoteTail hp hfit hr hpr hold hnew)
    · exact absurd (hstable _) (not_stable_slashTail hp hfit hr hpr hold hnew)
    · rfl
  rests r hr z hz hold _ hrest :=
    not_stable_flags hp hfit hr hz hold hrest (hstable _)
  declares y hy hlonely r hr := by
    rw [← List.contains_iff_mem, ← List.contains_iff_mem]
    intro hold
    cases hnew : declarationKeywords.contains r.new with
    | true => rfl
    | false => exact absurd (hstable _) (not_stable_fieldTail hp hfit hr hy hlonely hold hnew)
  returns y hy hlonely r hr p hpr hnew := by
    by_contra hold
    exact not_stable_elementTail hp hfit hr hy hlonely hpr hold hnew (hstable _)

end

/-- **Which rule sets make every source stable.** Of the rule sets without conflicts that open no
substitution, it is those that keep the context. -/
theorem RuleSet.stable_iff {rules : List Rule} {extra : List String} {set : RuleSet}
    (hset : RuleSet.ofRules rules extra = .ok set)
    (hconf : ∀ c ∈ set.conflicts, c.blocks = false) (hopens : set.OpensNothing) :
    (∀ source, set.Stable source) ↔ set.KeepsContext := by
  have hfit : ∀ r ∈ set.rules, r.unfit? = none := by
    obtain ⟨hfit, rfl⟩ := RuleSet.ofRules_eq_ok_iff.1 hset
    exact hfit
  exact ⟨RuleSet.keepsContext_of_stable (RuleSet.peaceful hset hconf) hfit,
    RuleSet.stable hset hconf hopens⟩

/-- Rules for a field of which the first one takes away a word that introduces declarations. -/
def fieldRules : RuleSet where
  rules := [⟨"type", "kind", .identifier⟩, ⟨"userId", "user_id", .jsxAttribute⟩]

/-- No conflict of these rules blocks, and yet a second renaming renames again. -/
theorem RuleSet.not_stable_fieldRules : RuleSet.ofRules fieldRules.rules [] = .ok fieldRules ∧
    (∀ c ∈ fieldRules.conflicts, c.blocks = false) ∧
      ¬ fieldRules.Stable "<Field type userId={userId} />" := by
  refine ⟨rfl, by decide +kernel, ?_⟩
  unfold RuleSet.Stable
  decide +kernel

/-- Rules for users and their orders. -/
def userRules : RuleSet where
  rules := [⟨"userId", "user_id", .identifier⟩, ⟨"orders", "purchases", .stringLiteral⟩]

theorem RuleSet.stable_iff_userRules : userRules.OpensNothing ∧
    ((∀ source, userRules.Stable source) ↔ userRules.KeepsContext) := by
  have hopens : userRules.OpensNothing := by
    intro r hr
    have hcases : r = ⟨"userId", "user_id", .identifier⟩ ∨
        r = ⟨"orders", "purchases", .stringLiteral⟩ := by simpa [userRules] using hr.mem
    rcases hcases with rfl | rfl <;> decide
  have hset : RuleSet.ofRules userRules.rules [] = .ok userRules := rfl
  exact ⟨hopens, RuleSet.stable_iff hset (by decide +kernel) hopens⟩

end Renaming
