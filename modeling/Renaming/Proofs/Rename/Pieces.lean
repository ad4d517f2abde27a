import Mathlib.Data.List.Forall2
import Renaming.Proofs.Rename.Renamed
import Renaming.Rule.Protected

/-!
The pieces of a renamed source. When all names start with a letter and none is a keyword in front
of a regular expression, a renaming keeps the pieces of a source: `pieces_rename` says that there
are as many, of the same kinds, and that each has its own edits and no others.
-/

namespace Renaming

open Renaming.Source

/-! ### The edits of a piece -/

/-- The edits whose ranges lie between two positions. -/
def editsWithin (edits : List Edit) (start stop : Nat) : List Edit :=
  edits.filter fun e => start ≤ e.start ∧ e.stop ≤ stop

/-- A piece of a source, with the positions where it starts and ends, and what becomes of it: a
piece of the same kind, with the edits in its range applied. -/
structure Edited (rules : List Rule) (edits : List Edit) (l : Piece × Nat × Nat) (p' : Piece) :
    Prop where
  kind : p'.kind = l.1.kind
  text : utf8 p'.text = splice rules l.2.1 (editsWithin edits l.2.1 l.2.2) (utf8 l.1.text)

section

variable {rules : List Rule} {guarded : List String}

theorem editsFrom_append (pos : Nat) (fs gs : List Fragment) :
    editsFrom rules guarded pos (fs ++ gs) = editsFrom rules guarded pos fs ++
      editsFrom rules guarded (pos + byteLength (fs.flatMap Fragment.text)) gs := by
  induction fs generalizing pos with
  | nil => simp [editsFrom]
  | cons f fs ih =>
    have hpos : pos + byteLength ((f :: fs).flatMap Fragment.text) =
        pos + byteLength f.text + byteLength (fs.flatMap Fragment.text) := by
      rw [List.flatMap_cons, byteLength_append, Nat.add_assoc]
    rw [List.cons_append, editsFrom, editsFrom, ih, hpos]
    cases (verdict rules guarded f).rule? <;> rfl

/-- The range of an edit holds a byte, and it lies within the text of the fragments. -/
theorem bounds_of_mem (hne : ∀ r ∈ rules, r.old ≠ "") {pos : Nat} {fs : List Fragment} {e : Edit}
    (h : e ∈ editsFrom rules guarded pos fs) :
    pos ≤ e.start ∧ e.start < e.stop ∧ e.stop ≤ pos + byteLength (fs.flatMap Fragment.text) := by
  obtain ⟨xs, f, ys, rfl, h1, h2, h3⟩ := mem_editsFrom_iff.1 h
  obtain ⟨site, r, rfl, -, hr⟩ := rule?_verdict_iff.1 h3
  have hpos : 0 < byteLength (Fragment.place site).text := by
    refine byteLength_pos fun h0 => hne r (List.mem_of_getElem? hr.1.1) ?_
    rw [hr.1.2.1]
    exact String.toList_eq_nil_iff.1 h0
  rw [List.flatMap_append, List.flatMap_cons, byteLength_append, byteLength_append]
  omega

theorem editsWithin_append (es fs : List Edit) (start stop : Nat) :
    editsWithin (es ++ fs) start stop = editsWithin es start stop ++ editsWithin fs start stop :=
  List.filter_append ..

theorem editsWithin_eq_self {es : List Edit} {start stop : Nat}
    (h : ∀ e ∈ es, start ≤ e.start ∧ e.stop ≤ stop) : editsWithin es start stop = es := by
  rw [editsWithin, List.filter_eq_self]
  simpa using h

theorem editsWithin_eq_nil {es : List Edit} {start stop : Nat}
    (h : ∀ e ∈ es, ¬ (start ≤ e.start ∧ e.stop ≤ stop)) : editsWithin es start stop = [] := by
  rw [editsWithin, List.filter_eq_nil_iff]
  simpa using h

/-! ### The pieces of tokens -/

/-- What becomes of a piece, by its fragments: they hold its edits. -/
structure Covered (rules : List Rule) (guarded : List String) (pos : Nat) (edits : List Edit)
    (l : Piece × Nat × Nat) (p' : Piece) : Prop where
  le : pos ≤ l.2.1
  kind : p'.kind = l.1.kind
  fragments : ∃ gs, l.1.text = gs.flatMap Fragment.text ∧
    p'.text = gs.flatMap (rendered rules guarded) ∧
    editsWithin edits l.2.1 l.2.2 = editsFrom rules guarded l.2.1 gs

theorem Covered.edited {pos : Nat} {edits : List Edit} {l : Piece × Nat × Nat} {p' : Piece}
    (h : Covered rules guarded pos edits l p') : Edited rules edits l p' := by
  obtain ⟨gs, h1, h2, h3⟩ := h.fragments
  refine ⟨h.kind, ?_⟩
  have hs : splice rules l.2.1 (editsFrom rules guarded l.2.1 gs) (utf8 (gs.flatMap Fragment.text)) =
      utf8 (gs.flatMap (rendered rules guarded)) := splice_editsFrom l.2.1 [] gs
  rw [h1, h2, h3, hs]

/-- Edits in front of the pieces are none of theirs. -/
theorem Covered.cons {pos mid : Nat} {es fs : List Edit} {l : Piece × Nat × Nat} {p' : Piece}
    (h : Covered rules guarded mid fs l p') (hle : pos ≤ mid)
    (hes : ∀ e ∈ es, e.start < e.stop ∧ e.stop ≤ mid) :
    Covered rules guarded pos (es ++ fs) l p' := by
  obtain ⟨gs, h1, h2, h3⟩ := h.fragments
  have hmid := h.le
  refine ⟨by omega, h.kind, gs, h1, h2, ?_⟩
  rw [editsWithin_append, h3, editsWithin_eq_nil, List.nil_append]
  intro e he
  have := hes e he
  omega

theorem covered_merge {pos : Nat} {p p' : Piece} {qs qs' : List Piece} {gs : List Fragment}
    {fs : List Edit} (hk : p'.kind = p.kind) (htext : p.text = gs.flatMap Fragment.text)
    (hnew : p'.text = gs.flatMap (rendered rules guarded))
    (hes : ∀ e ∈ editsFrom rules guarded pos gs,
      pos ≤ e.start ∧ e.start < e.stop ∧ e.stop ≤ pos + byteLength p.text)
    (hfs : ∀ e ∈ fs, pos + byteLength p.text ≤ e.start ∧ e.start < e.stop)
    (h : List.Forall₂ (Covered rules guarded (pos + byteLength p.text) fs)
      (located (pos + byteLength p.text) qs) qs') :
    List.Forall₂ (Covered rules guarded pos (editsFrom rules guarded pos gs ++ fs))
      (located pos (p.merge qs)) (p'.merge qs') := by
  have hrest := h.imp fun _ _ hq => hq.cons (Nat.le_add_right pos _) fun e he => (hes e he).2
  have hfirst : Covered rules guarded pos (editsFrom rules guarded pos gs ++ fs)
      (p, pos, pos + byteLength p.text) p' := by
    refine ⟨Nat.le_refl _, hk, gs, htext, hnew, ?_⟩
    rw [editsWithin_append, editsWithin_eq_self fun e he => ⟨(hes e he).1, (hes e he).2.2⟩,
      editsWithin_eq_nil, List.append_nil]
    intro e he
    have := hfs e he
    simp only
    omega
  cases qs with
  | nil =>
    cases h
    exact .cons hfirst .nil
  | cons q qs =>
    cases h with
    | @cons _ q' _ qs' hq hqs =>
      by_cases hc : p.kind = .code ∧ q.kind = .code
      · -- both are code and become one piece
        have hc' : p'.kind = .code ∧ q'.kind = .code := ⟨hk.trans hc.1, hq.kind.trans hc.2⟩
        rw [Piece.merge, if_pos hc, Piece.merge, if_pos hc', located]
        cases hrest with
        | cons hq' hqs' =>
          have hlen : pos + byteLength (p.text ++ q.text) =
              pos + byteLength p.text + byteLength q.text := by
            rw [byteLength_append, Nat.add_assoc]
          simp only [hlen]
          refine .cons ⟨Nat.le_refl _, rfl, ?_⟩ hqs'
          obtain ⟨hs, h1, h2, h3⟩ := hq.fragments
          refine ⟨gs ++ hs, ?_, ?_, ?_⟩
          · rw [List.flatMap_append, ← htext, ← h1]
          · rw [List.flatMap_append, ← hnew, ← h2]
          · rw [editsFrom_append, ← htext, ← h3, editsWithin_append, editsWithin_eq_self]
            · refine congrArg (editsFrom rules guarded pos gs ++ ·) (List.filter_congr fun e he => ?_)
              have := hfs e he
              simp only [decide_eq_decide]
              omega
            · intro e he
              have := hes e he
              simp only
              omega
      · have hc' : ¬ (p'.kind = .code ∧ q'.kind = .code) := by
          rw [hk, hq.kind]
          exact hc
        rw [Piece.merge, if_neg hc, Piece.merge, if_neg hc']
        exact .cons hfirst hrest

theorem covered_tokens (hne : ∀ r ∈ rules, r.old ≠ "") (before : List Mark) (pos : Nat)
    (ps : List Piece) :
    List.Forall₂ (Covered rules guarded pos (editsFrom rules guarded pos (placed before ps)))
      (located pos (mergeAll ps))
      (mergeAll (redrawn (nameAfter rules guarded) before ps)) := by
  induction ps generalizing before pos with
  | nil => exact .nil
  | cons p ps ih =>
    have htext := flatMap_text_fragments_piece p before (textOf ps)
    have hedits : editsFrom rules guarded pos (placed before (p :: ps)) =
        editsFrom rules guarded pos (p.fragments before (textOf ps)) ++
          editsFrom rules guarded (pos + byteLength p.text) (placed (p.marks.reverse ++ before) ps) := by
      rw [placed, editsFrom_append, htext]
    rw [hedits]
    refine covered_merge rfl htext.symm ?_ ?_ ?_ (ih (p.marks.reverse ++ before) _)
    · exact congrArg (List.flatMap · _) (funext redraw_nameAfter)
    · intro e he
      have := bounds_of_mem hne he
      rwa [htext] at this
    · exact fun e he => ⟨(bounds_of_mem hne he).1, (bounds_of_mem hne he).2.1⟩

end

/-- **Renaming keeps the pieces of a source** when all names start with a letter and none is a
keyword in front of a regular expression. -/
theorem pieces_rename (rules : List Rule) (guarded : List String) (source : String)
    (hnames : ∀ r ∈ rules, isLetterName r.old = true ∧ isLetterName r.new = true)
    (hwords : ∀ r ∈ rules, r.old ∉ regexKeywords ∧ r.new ∉ regexKeywords) :
    ∃ edits, Rewrites rules guarded source (rename rules guarded source) edits ∧
      List.Forall₂ (Edited rules edits) (located 0 (pieces source.toList))
        (pieces (rename rules guarded source).text.toList) := by
  have htame : ∀ r ∈ rules, r.old ∉ guarded → r.Tame fun _ _ => True := by
    intro r hr _
    obtain ⟨hold, hnew⟩ := hnames r hr
    refine Rule.tame_of_isLetterName hold hnew
      (.of_letter (isName_of_isLetterName hold).2 ?_ trivial trivial)
    simp [hwords r hr]
  have hne : ∀ r ∈ rules, r.old ≠ "" := by
    intro r hr h0
    have := (hnames r hr).1
    rw [h0] at this
    cases this
  refine ⟨_, rewrites_editsOf rules guarded source, ?_⟩
  have hletter : ∀ r ∈ rules, startsWithLetter r.old.toList = true :=
    fun r hr => (isName_of_isLetterName (hnames r hr).1).2
  rw [pieces_eq_mergeAll, pieces_eq_mergeAll, tokensOf_rename htame, settle_nameAfter htame hletter,
    editsOf, fragmentsOf_eq_placed]
  exact (covered_tokens hne [] 0 _).imp fun _ _ h => h.edited

/-- A regular expression keeps its name, and a quotient, a template and a string do not. -/
theorem pieces_rename_slashes :
    (∀ r ∈ [Rule.mk "total" "sum" .identifier, Rule.mk "total" "sum" .stringLiteral],
      isLetterName r.old = true ∧ isLetterName r.new = true) ∧
    (∀ r ∈ [Rule.mk "total" "sum" .identifier, Rule.mk "total" "sum" .stringLiteral],
      r.old ∉ regexKeywords ∧ r.new ∉ regexKeywords) ∧
    ∃ edits, Rewrites [⟨"total", "sum", .identifier⟩, ⟨"total", "sum", .stringLiteral⟩] builtinNames
        "total / 2 + /total/g.exec('total') + `${total}`"
        (rename [⟨"total", "sum", .identifier⟩, ⟨"total", "sum", .stringLiteral⟩] builtinNames
          "total / 2 + /total/g.exec('total') + `${total}`") edits ∧
      List.Forall₂ (Edited [⟨"total", "sum", .identifier⟩, ⟨"total", "sum", .stringLiteral⟩] edits)
        (located 0 (pieces
          "total / 2 + /total/g.exec('total') + `${total}`".toList))
        (pieces (rename [⟨"total", "sum", .identifier⟩, ⟨"total", "sum", .stringLiteral⟩] builtinNames
          "total / 2 + /total/g.exec('total') + `${total}`").text.toList) :=
  ⟨by decide, by decide, pieces_rename _ _ _ (by decide) (by decide)⟩

end Renaming
