import Mathlib.Data.List.Forall2
import Renaming.Proofs.Rename.Splice

/-!
The places that a renaming skips, with their lines. The line of a place is told by the line feeds in
front of it, so the skips can be read off the fragments of a source from the first to the last:
`skipped_rename`.
-/

namespace Renaming

open Renaming.Source

/-! ### Lines -/

/-- The number of line feeds in a text. -/
def feeds (text : List Char) : Nat := text.count '\n'

@[simp] theorem feeds_nil : feeds [] = 0 := rfl

@[simp] theorem feeds_append (a b : List Char) : feeds (a ++ b) = feeds a + feeds b :=
  List.count_append

theorem feeds_eq_zero {text : List Char} (h : '\n' ∉ text) : feeds text = 0 :=
  List.count_eq_zero.2 h

theorem countP_feeds (ms : List Mark) : ms.countP (·.char == '\n') = feeds (ms.map Mark.char) := by
  rw [feeds, List.count, List.countP_map]
  rfl

/-- The line of a place is told by the line feeds in front of it. -/
theorem line_of_fragmentsOf {source : List Char} {site : Site} {fs gs : List Fragment}
    (h : fragmentsOf source = fs ++ .place site :: gs) :
    site.line = 1 + feeds (fs.flatMap Fragment.text) := by
  rw [fragmentsOf_eq_placed] at h
  obtain ⟨xs, p, ys, t, -, hp, hlead⟩ :=
    held_of_placed (wellCut_tokens .start source).text_ne_nil h
  have hline : ∀ name inCode, Site.line ⟨name, inCode, (marksOf xs).reverse ++ [], textOf ys⟩ =
      1 + feeds (textOf xs) := by
    intro name inCode
    rw [Site.line, List.append_nil, List.countP_reverse, countP_feeds, map_char_marksOf]
  rw [hlead]
  cases hp with
  | word => rw [hline, List.append_nil]
  | @content q m hq =>
    have hfeed : feeds [q] = 0 := by
      refine feeds_eq_zero fun hmem => ?_
      rw [← List.mem_singleton.1 hmem] at hq
      cases hq
    rw [hline, feeds_append, hfeed, Nat.add_zero]

/-! ### Skips one by one -/

/-- The name of the place that a verdict skips. -/
def Verdict.skipName? : Verdict → Option String
  | skip site => some site.name
  | _ => none

section

variable (rules : List Rule) (guarded : List String)

/-- The skips among fragments of which the first one starts on a line. -/
def skipsFrom (line : Nat) : List Fragment → List Skip
  | [] => []
  | f :: fs =>
    ((verdict rules guarded f).skipName?.map (Skip.mk · line)).toList ++
      skipsFrom (line + feeds f.text) fs

variable {rules guarded}

/-- A place that is skipped is the fragment that the verdict is on. -/
theorem eq_place_of_verdict {f : Fragment} {site : Site}
    (h : verdict rules guarded f = .skip site) : f = .place site := by
  cases f with
  | kept text => cases h
  | place s =>
    simp only [verdict] at h
    split at h
    · cases h
    · split at h
      · rw [Verdict.skip.inj h]
      · cases h

theorem filterMap_skip?_eq {line : Nat} {fs : List Fragment}
    (h : ∀ xs site ys, fs = xs ++ .place site :: ys →
      site.line = line + feeds (xs.flatMap Fragment.text)) :
    fs.filterMap (fun f => (verdict rules guarded f).skip?) = skipsFrom rules guarded line fs := by
  induction fs generalizing line with
  | nil => rfl
  | cons f fs ih =>
    have ih := @ih (line + feeds f.text) fun xs site ys hfs => by
      have := h (f :: xs) site ys (by rw [hfs]; rfl)
      rwa [List.flatMap_cons, feeds_append, ← Nat.add_assoc] at this
    rw [List.filterMap_cons, skipsFrom, ← ih]
    cases hv : verdict rules guarded f with
    | keep => rfl
    | rename new i => rfl
    | skip site =>
      have hline := h [] site fs (by rw [eq_place_of_verdict hv]; rfl)
      simp only [Verdict.skip?, Verdict.skipName?, hline]
      rfl

/-- **The skips of a renaming** are those of its fragments, from the first line on. -/
theorem skipped_rename (source : String) : (rename rules guarded source).skipped =
    skipsFrom rules guarded 1 (fragmentsOf source.toList) := by
  rw [← filterMap_skip?_eq fun xs site ys h => line_of_fragmentsOf h]
  simp only [rename, List.filterMap_map]
  rfl

/-- Fragments that match one by one have the same skips. -/
theorem skipsFrom_congr {fs fs' : List Fragment} (h : List.Forall₂ (fun f f' =>
      (verdict rules guarded f).skipName? = (verdict rules guarded f').skipName? ∧
        feeds f.text = feeds f'.text) fs fs') (line : Nat) :
    skipsFrom rules guarded line fs = skipsFrom rules guarded line fs' := by
  induction h generalizing line with
  | nil => rfl
  | cons hf _ ih => rw [skipsFrom, skipsFrom, hf.1, hf.2, ih]

end

end Renaming
