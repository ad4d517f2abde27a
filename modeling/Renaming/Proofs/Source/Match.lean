import Mathlib.Data.List.Forall2
import Renaming.Proofs.Source.Behind

/-!
The places of a source with new names. `matches_placed` says that they are the places of the
source, one by one: each has its new name, the same tests of objects hold of it, and the tests of
tags are related by `L`.
-/

namespace Renaming.Source

/-! ### Fragments of some tokens -/

theorem Piece.fragments_word {w : String} (hw : ∀ c ∈ w.toList, Source.isWord c = true)
    (hne : w.toList ≠ []) (hd : ∀ c ∈ w.toList.head?, c.isDigit = false) (before : List Mark)
    (after : List Char) : Piece.fragments before after ⟨.code, w.toList⟩ =
      [.place ⟨w, true, before, after⟩] := by
  obtain ⟨c, t, ht⟩ := List.exists_cons_of_ne_nil hne
  have hc : c.isDigit = false := hd c (by rw [ht]; rfl)
  have hlead : ((w.toList.head?.map Char.isDigit).getD true) = false := by
    rw [ht]
    simpa using hc
  simp [Piece.fragments, isWord_piece hw, hlead]

theorem IsName.fragments {w : String} (hw : IsName w.toList) (before : List Mark)
    (after : List Char) : Piece.fragments before after ⟨.code, w.toList⟩ =
      [.place ⟨w, true, before, after⟩] := by
  refine Piece.fragments_word hw.isWord hw.ne_nil (fun d hd => ?_) before after
  obtain ⟨c, t, ht, hc⟩ := hw.head
  rw [ht] at hd
  obtain rfl : c = d := by simpa using hd
  simp only [startsName, Bool.and_eq_true, Bool.not_eq_true'] at hc
  exact hc.2

theorem Piece.fragments_content {q : Char} {m : String}
    (hm : Piece.content? ⟨.literal, q :: (m.toList ++ [q])⟩ = some m.toList) (before : List Mark)
    (after : List Char) : Piece.fragments before after ⟨.literal, q :: (m.toList ++ [q])⟩ =
      [.kept [q], .place ⟨m, false, before, after⟩, .kept [q]] := by
  simp [Piece.fragments, hm, Piece.isWord_eq_false_of_content? hm]

theorem content?_of_plain {q : Char} {m : List Char} (hq : isQuote q = true)
    (hm : ∀ c ∈ m, needsEscape c = false) :
    Piece.content? ⟨.literal, q :: (m ++ [q])⟩ = some m := by
  have hslash : m.reverse.takeWhile (· == '\\') = [] := by
    cases hr : m.reverse with
    | nil => rfl
    | cons c r =>
      have hc : c ≠ '\\' := by
        rintro rfl
        have := hm '\\' (by rw [← List.mem_reverse, hr]; exact List.mem_cons_self ..)
        cases this
      simp [hc]
  simp [Piece.content?, inner?, hq, hslash]

theorem Piece.fragments_kept {p : Piece} {before : List Mark} {after : List Char}
    (h : p.fragments before after = [.kept p.text]) (before' : List Mark) (after' : List Char) :
    p.fragments before' after' = [.kept p.text] := by
  unfold Piece.fragments at h ⊢
  split
  · next hw =>
    rw [if_pos hw] at h
    split
    · rfl
    · next hd => simp [hd] at h
  · next hw =>
    rw [if_neg hw] at h
    split
    · next m hm => simp [hm] at h
    · rfl

/-! ### Places one by one -/

/-- A fragment and what becomes of it: kept text stays, and a place gets its new name. -/
inductive Fragment.Matches (L : Bool → Bool → Prop) (ren : Site → String) :
    Fragment → Fragment → Prop
  | kept (text : List Char) : Matches L ren (.kept text) (.kept text)
  | place {s s' : Site} : s'.name = ren s → s'.inCode = s.inCode → s'.isKey = s.isKey →
    (s.inCode = true → L s.isAttribute s'.isAttribute) → Matches L ren (.place s) (.place s')

section

variable {L : Bool → Bool → Prop} {ren : Site → String} {before before' : List Mark}
  {after after' : List Char}

theorem Behind.redrawn {p p' : Piece} (h : Behind L (p.text ++ after) before before')
    (hr : Redrawn L after p p') (hnext : p.isWord = true → ∀ c ∈ after.head?, isWord c = false)
    (hseam : Seamed before (p.text ++ after)) :
    Behind L after (p.marks.reverse ++ before) (p'.marks.reverse ++ before') := by
  cases hr with
  | same => exact h.marks p.kind p.text
  | @word w w' hw hw' hk =>
    refine .word hw hw' hk (hnext (isWord_piece hw.isWord)) (fun hb => ?_) h
    obtain ⟨c, t, ht, -⟩ := hw.head
    have := hseam hb
    simp only [ht] at this
    rw [ht]
    simpa [startsWithLetter] using this
  | content hq _ _ _ => exact .content hq h

/-- The tests of a place that looks back on a text and ahead on another. -/
theorem matches_site (hL : Coherent L) {s s' : Site}
    (hb : Behind L (s.name.toList ++ s.after) s.before s'.before ∨
      s.inCode = false ∧ ∃ a, Behind L a s.before s'.before)
    (ha : Alike KeepsFrame s.after s'.after) (hname : s'.name = ren s) (hcode : s'.inCode = s.inCode)
    (hnext : s.inCode = true → Behind.SameNext s.name.toList.head? s'.name.toList.head? ∧
      ¬ Separates (s.name.toList ++ s.after)) :
    Fragment.Matches L ren (.place s) (.place s') := by
  have hkey : s'.isKey = s.isKey := by
    rw [Site.isKey, Site.isKey, ha.colonFollows]
    rcases hb with hb | ⟨-, a, hb⟩ <;> rw [hb.entryStarts]
  refine .place hname hcode hkey fun hc => ?_
  obtain ⟨hn, hsep⟩ := hnext hc
  rcases hb with hb | ⟨hc', -⟩
  · rw [Site.isAttribute, Site.isAttribute, ha.assignmentFollows]
    exact hL.and (hL.and (hL.refl _) (hb.attributeStarts hL hsep)) (hb.insideTag hL hn 0)
  · rw [hc] at hc'
    cases hc'

theorem matches_fragments (hL : Coherent L) {p : Piece}
    (hsite : ∀ site, .place site ∈ p.fragments before after → Allowed L site (ren site))
    (hb : Behind L (p.text ++ after) before before') (ha : Alike KeepsFrame after after') :
    List.Forall₂ (Fragment.Matches L ren) (p.fragments before after)
      ((p.redraw ren before after).fragments before' after') := by
  have hshape := p.shape before after
  unfold Piece.redraw
  generalize hfs : p.fragments before after = fs at hsite hshape
  cases hshape with
  | kept =>
    simp only [List.flatMap_cons, List.flatMap_nil, List.append_nil, Fragment.redraw]
    rw [Piece.fragments_kept hfs]
    exact .cons (.kept _) .nil
  | @word w hw hne hd =>
    have hs := hsite _ (List.mem_singleton_self _)
    have hsep : ¬ Separates (w.toList ++ after) := by
      obtain ⟨c, t, ht⟩ := List.exists_cons_of_ne_nil hne
      rw [ht]
      exact not_separates_of_isWord (hw c (by rw [ht]; exact List.mem_cons_self ..))
    simp only [List.flatMap_cons, List.flatMap_nil, List.append_nil, Fragment.redraw]
    generalize hw' : ren ⟨w, true, before, after⟩ = w' at hs
    cases hs with
    | same =>
      rw [Piece.fragments_word hw hne hd]
      exact .cons (matches_site hL (.inl hb) ha hw'.symm rfl fun _ => ⟨.inl rfl, hsep⟩) .nil
    | word _ hn hn' =>
      rw [hn'.fragments]
      refine .cons (matches_site hL (.inl hb) ha hw'.symm rfl fun _ => ⟨?_, hsep⟩) .nil
      obtain ⟨c, t, ht, hc⟩ := hn.head
      obtain ⟨c', t', ht', hc'⟩ := hn'.head
      exact .inr ⟨c, c', by rw [ht]; rfl, by rw [ht']; rfl, hc, hc'⟩
    | content hc => cases hc
  | @content q m hq hm =>
    have hs := hsite ⟨m, false, before, after⟩ (by simp)
    simp only [List.flatMap_cons, List.flatMap_nil, List.append_nil, Fragment.redraw,
      List.singleton_append]
    generalize hm' : ren ⟨m, false, before, after⟩ = m' at hs
    have hplace : Fragment.Matches L ren (.place ⟨m, false, before, after⟩)
        (.place ⟨m', false, before', after'⟩) :=
      matches_site hL (.inr ⟨rfl, _, hb⟩) ha hm'.symm rfl (by simp)
    have hfragments : Piece.fragments before' after' ⟨.literal, q :: (m'.toList ++ [q])⟩ =
        [.kept [q], .place ⟨m', false, before', after'⟩, .kept [q]] := by
      cases hs with
      | same => exact Piece.fragments_content hm before' after'
      | word hc => cases hc
      | content _ hf =>
        exact Piece.fragments_content (content?_of_plain hq hf.plain') before' after'
    rw [hfragments]
    exact .cons (.kept _) (.cons hplace (.cons (.kept _) .nil))

/-- **The places of a source with new names** are the places of the source. -/
theorem matches_placed (hL : Coherent L) {ps : List Piece} (hsafe : Safe ren L before ps)
    (hcut : WellCut ps) (hb : Behind L (textOf ps) before before')
    (hseam : Seamed before (textOf ps)) :
    List.Forall₂ (Fragment.Matches L ren) (placed before ps)
      (placed before' (redrawn ren before ps)) := by
  induction ps generalizing before before' with
  | nil => exact .nil
  | cons p ps ih =>
    rw [textOf_cons] at hb hseam
    have hr := redrawn_redraw hsafe.head
    refine List.rel_append (matches_fragments hL hsafe.head hb (alike_redrawn hsafe.tail)) ?_
    exact ih hsafe.tail hcut.tail (hb.redrawn hr hcut.next hseam) (hcut.seam.seamed before)

end

end Renaming.Source
