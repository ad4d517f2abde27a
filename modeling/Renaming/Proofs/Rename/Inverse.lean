import Renaming.Proofs.Rename.Renamed
import Renaming.Proofs.Rule.Conflict

/-!
Renaming back. When the names of the rules are plain and no conflict blocks, a renaming is undone
by the inverse rules, provided that none of the new names stood in the source: `rename_inverse`.

The tests of the places say the same before and after, and two rules that lead to one name at one
place have one old name.
-/

namespace Renaming

open Renaming.Source

/-- Whether a name is a letter and then letters, digits, underscores and dollars, and none of the
words that change how the text after them is read. -/
def isPlainName (name : String) : Bool :=
  isLetterName name && !regexKeywords.contains name && !declarationKeywords.contains name

theorem coherent_eq : Coherent Eq where
  refl _ := rfl
  and h h' := by rw [h, h']

/-- Plain names say the same in front of a slash and in a tag. -/
theorem steady_of_isPlainName {w w' : String} (h : isPlainName w = true)
    (h' : isPlainName w' = true) : Steady Eq w w' := by
  have hreturn : ∀ {v : String}, regexKeywords.contains v = false → (v == "return") = false := by
    intro v hv
    rw [beq_eq_false_iff_ne]
    rintro rfl
    cases hv
  simp only [isPlainName, Bool.and_eq_true, Bool.not_eq_true'] at h h'
  refine .of_letter (isName_of_isLetterName h.1.1).2 (by rw [h.1.2, h'.1.2]) (by rw [h.2, h'.2]) ?_
  rw [hreturn h.1.2, hreturn h'.1.2]

theorem Rule.tame_of_isPlainName {r : Rule} (h : isPlainName r.old = true)
    (h' : isPlainName r.new = true) : r.Tame Eq := by
  refine Rule.tame_of_isLetterName ?_ ?_ (steady_of_isPlainName h h')
  · simp only [isPlainName, Bool.and_eq_true] at h
    exact h.1.1
  · simp only [isPlainName, Bool.and_eq_true] at h'
    exact h'.1.1

theorem startsWithLetter_of_isPlainName {name : String} (h : isPlainName name = true) :
    startsWithLetter name.toList = true := by
  simp only [isPlainName, Bool.and_eq_true] at h
  exact (isName_of_isLetterName h.1.1).2

/-- What matches a place lies in the same scopes. -/
theorem admits_of_matches {ren : Site → String} {s s' : Site}
    (h : Fragment.Matches Eq ren (.place s) (.place s')) (scope : Scope) :
    scope.admits s' = scope.admits s := by
  cases h with
  | place _ hcode hkey hattr =>
    cases scope with
    | identifier => exact hcode
    | jsxAttribute =>
      simp only [Scope.admits, hcode]
      cases hc : s.inCode with
      | false => rfl
      | true => rw [hattr hc]
    | objectKey => exact hkey
    | stringLiteral => simp only [Scope.admits, hcode]

section

variable {rules : List Rule} {guarded : List String} {s s' : Site}

theorem nameAfter_inverse (hp : Peaceful guarded rules) (hname : s'.name = nameAfter rules guarded s)
    (hadmits : ∀ scope : Scope, scope.admits s' = scope.admits s)
    (hfresh : ∀ r ∈ rules, s.name ≠ r.new) :
    nameAfter (rules.map Rule.inverse) guarded s' = s.name := by
  rcases nameAfter_cases s with hs | ⟨i, r, hr, hg, hs⟩
  · -- no inverse rule is for a name that stood in the source
    rw [hs] at hname
    rcases nameAfter_cases s' with hs' | ⟨j, r', hr', -, -⟩
    · rw [hs', hname]
    · obtain ⟨r, hr, rfl⟩ := List.mem_map.1 (List.mem_of_getElem? hr'.1.1)
      exact absurd (hname.symm.trans hr'.1.2.1.symm) (hfresh r hr)
  · rw [hs] at hname
    obtain ⟨hi, hold, hadm⟩ := hr.1
    have hmem := List.mem_of_getElem? hi
    have happ : Applies (rules.map Rule.inverse) s' i r.inverse :=
      ⟨by rw [List.getElem?_map, hi]; rfl, hname.symm, by rw [hadmits]; exact hadm⟩
    obtain ⟨r', j, hsel⟩ := exists_select? happ
    have hchosen := chosen_of_select? hsel
    obtain ⟨hj, hold', hadm'⟩ := hchosen.1
    obtain ⟨r₂, hr₂, rfl⟩ := List.mem_map.1 (List.mem_of_getElem? hj)
    rw [hadmits] at hadm'
    have hnew : r₂.new = r.new := hold'.trans hname
    have hsame := hp.target r₂ hr₂ r hmem (Scope.overlaps_of_admits hadm' hadm) hnew
    rw [nameAfter_of_chosen hchosen (by rw [hname]; exact hp.unguarded r hmem)]
    exact hsame.trans hold

end

/-- **Inverse rules undo a renaming** with plain names and without conflicts that block, when no
new name stands in the source. -/
theorem rename_inverse {rules : List Rule} {extra : List String} {set : RuleSet}
    (hset : RuleSet.ofRules rules extra = .ok set)
    (hplain : ∀ r ∈ set.rules, isPlainName r.old = true ∧ isPlainName r.new = true)
    (hconf : ∀ c ∈ set.conflicts, c.blocks = false) (source : String)
    (hfresh : ∀ start stop site, Occurs source.toList start stop site →
      ∀ r ∈ set.rules, site.name ≠ r.new) :
    (rename (set.rules.map Rule.inverse) set.guarded
      (rename set.rules set.guarded source).text).text = source := by
  have hp := RuleSet.peaceful hset hconf
  have htame : ∀ r ∈ set.rules, r.old ∉ set.guarded → r.Tame Eq :=
    fun r hr _ => Rule.tame_of_isPlainName (hplain r hr).1 (hplain r hr).2
  have hletter : ∀ r ∈ set.rules, startsWithLetter r.old.toList = true := by
    intro r hr
    have hold := (hplain r hr).1
    simp only [isPlainName, Bool.and_eq_true] at hold
    exact (isName_of_isLetterName hold.1.1).2
  have hmatch := (List.forall₂_and_left _ _).2
    ⟨fun f (hf : f ∈ fragmentsOf source.toList) => hf,
      matches_rename coherent_eq htame hletter source⟩
  rw [← String.toList_inj, text_rename]
  refine .trans ?_ (flatMap_text_fragmentsOf source.toList)
  refine (flatMap_eq_of_forall₂ (hmatch.imp fun f f' h => ?_)).symm
  obtain ⟨hf, hm⟩ := h
  rw [← redraw_nameAfter]
  cases hm with
  | kept t => rfl
  | @place s s' hname hcode hkey hattr =>
    obtain ⟨start, stop, hs⟩ := occurs_of_mem hf
    refine congrArg String.toList (nameAfter_inverse hp hname ?_ (hfresh _ _ _ hs)).symm
    intro scope
    cases scope with
    | identifier => exact hcode
    | jsxAttribute =>
      simp only [Scope.admits, hcode]
      cases hc : s.inCode with
      | false => rfl
      | true => rw [hattr hc]
    | objectKey => exact hkey
    | stringLiteral => simp only [Scope.admits, hcode]

/-- Rules of all four scopes are undone. -/
theorem rename_inverse_all_scopes : ∃ set, RuleSet.ofRules
      [⟨"userId", "accountId", .identifier⟩, ⟨"label", "title", .jsxAttribute⟩,
        ⟨"color", "tint", .objectKey⟩, ⟨"draft", "pending", .stringLiteral⟩] ["api"] = .ok set ∧
    (∀ r ∈ set.rules, isPlainName r.old = true ∧ isPlainName r.new = true) ∧
    (∀ c ∈ set.conflicts, c.blocks = false) ∧
    (∀ start stop site, Occurs
      "<Row label='draft' n=\x7b\x7b color: userId / 2, 'color': 1 \x7d\x7d />".toList
      start stop site → ∀ r ∈ set.rules, site.name ≠ r.new) ∧
    (rename (set.rules.map Rule.inverse) set.guarded (rename set.rules set.guarded
      "<Row label='draft' n=\x7b\x7b color: userId / 2, 'color': 1 \x7d\x7d />").text).text =
      "<Row label='draft' n=\x7b\x7b color: userId / 2, 'color': 1 \x7d\x7d />" := by
  have hset : RuleSet.ofRules
      [⟨"userId", "accountId", .identifier⟩, ⟨"label", "title", .jsxAttribute⟩,
        ⟨"color", "tint", .objectKey⟩, ⟨"draft", "pending", .stringLiteral⟩] ["api"] =
      .ok { rules := _, extra := ["api"] } := rfl
  have hall : ∀ f ∈ fragmentsOf
      "<Row label='draft' n=\x7b\x7b color: userId / 2, 'color': 1 \x7d\x7d />".toList,
      ∀ new ∈ ["accountId", "title", "tint", "pending"], f.text ≠ new.toList := by
    decide +kernel
  refine ⟨_, hset, by decide, by decide, ?_, ?_⟩
  · intro start stop site hs r hr hname
    exact hall _ (mem_of_occurs hs) r.new (List.mem_map_of_mem hr) (by rw [← hname]; rfl)
  · refine rename_inverse hset (by decide) (by decide) _ fun start stop site hs r hr hname => ?_
    exact hall _ (mem_of_occurs hs) r.new (List.mem_map_of_mem hr) (by rw [← hname]; rfl)

end Renaming
