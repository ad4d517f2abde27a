import Renaming.Proofs.Rename.Skipped
import Renaming.Proofs.Source.Beside

/-!
Comments and renaming. A source and the source without its comments have the same edits and the same
skips when no comment hides what the tests of a place look for (`Unobscured`): the main statement is
`rename_uncommented`. A comment hides it when it stands next to the place, for the tests take the
nearest character, be it part of a comment or not (`comment_hides_key`).
-/

namespace Renaming

open Renaming.Source
open Renaming.Text (isBlank)

/-! ### Where comments stand -/

/-- The text `before`, which is read backwards, ends in a comment of the source. -/
def EndsComment (source : List Char) (before : List Mark) : Prop :=
  ∃ ps p qs, pieces source = ps ++ p :: qs ∧ p.kind = .comment ∧
    before = (marksOf (ps ++ [p])).reverse

/-- The text `after` starts with a comment of the source. -/
def StartsComment (source : List Char) (after : List Char) : Prop :=
  ∃ ps p qs, pieces source = ps ++ p :: qs ∧ p.kind = .comment ∧ after = textOf (p :: qs)

/-- A comment stands in front of the place or behind it, with nothing but blanks between. -/
def Commented (source : List Char) (s : Site) : Prop :=
  Fronted (EndsComment source) s.before ∨ Followed (StartsComment source) s.after

/-- A comment stands in front of a tag that opens in front of the place. -/
def TagCommented (source : List Char) (s : Site) : Prop :=
  ∃ us m vs, s.before = us ++ m :: ⟨'<', true⟩ :: vs ∧ startsTag (some m.char) = true ∧
    Fronted (EndsComment source) vs

/-- No comment of the source hides from the rules what they look for. -/
structure Unobscured (rules : List Rule) (source : String) : Prop where
  /-- No comment stands directly behind a backslash of the code. -/
  escaped : ∀ ps p qs, pieces source.toList = ps ++ p :: qs → p.kind = .comment →
    (textOf ps).getLast? ≠ some '\\'
  /-- No key that has a rule, with the comments or without them, stands next to a comment. -/
  keys : ∀ r ∈ rules, r.scope = .objectKey → ∀ start stop s s',
    Occurs source.toList start stop s → Occurs (uncommented source).toList start stop s' →
    r.old = s.name → s.isKey = true ∨ s'.isKey = true → ¬ Commented source.toList s
  /-- No attribute that has a rule stands next to a comment, and no tag in front of it does. -/
  attributes : ∀ r ∈ rules, r.scope = .jsxAttribute → ∀ start stop s s',
    Occurs source.toList start stop s → Occurs (uncommented source).toList start stop s' →
    r.old = s.name → s.inCode = true → s.isAttribute = true ∨ s'.isAttribute = true →
    ¬ Commented source.toList s ∧ ¬ TagCommented source.toList s

/-- Rules for words and strings look at nothing but the place, so that only a backslash lets a
comment count. -/
theorem Unobscured.of_scopes {rules : List Rule} {source : String}
    (h : ∀ r ∈ rules, r.scope = .identifier ∨ r.scope = .stringLiteral)
    (hescaped : ∀ ps p qs, pieces source.toList = ps ++ p :: qs → p.kind = .comment →
      (textOf ps).getLast? ≠ some '\\') : Unobscured rules source where
  escaped := hescaped
  keys r hr hscope := by
    rcases h r hr with hs | hs <;> cases hs.symm.trans hscope
  attributes r hr hscope := by
    rcases h r hr with hs | hs <;> cases hs.symm.trans hscope

namespace Source

/-! ### Places without comments -/

section

variable {source : List Char} {xs ys : List Piece} {p : Piece}

theorem exists_comment (h : tokensOf source = xs ++ p :: ys) (hk : p.kind = .comment) :
    CommentCut p.text (textOf ys) ∧ EndsComment source (marksOf (xs ++ [p])).reverse ∧
      StartsComment source (textOf (p :: ys)) ∧
      ∃ us vs, pieces source = us ++ p :: vs ∧ textOf us = textOf xs := by
  have hcut : WellCut (xs ++ p :: ys) := h ▸ wellCut_tokens .start source
  obtain ⟨us, vs, hm, hmarks, hrest⟩ := exists_piece_of_ne hcut (by simp [hk])
  rw [← h, ← pieces_eq_mergeAll] at hm
  refine ⟨commentCut_of_tokens h hk, ⟨us, p, vs, hm, hk, ?_⟩, ⟨us, p, vs, hm, hk, ?_⟩, us, vs, hm,
    textOf_eq_of_marksOf hmarks⟩
  · rw [marksOf_append, marksOf_append, hmarks]
  · rw [textOf_cons, textOf_cons, hrest]

theorem loose_tokensOf (h : ∀ ps p qs, pieces source = ps ++ p :: qs → p.kind = .comment →
    (textOf ps).getLast? ≠ some '\\') : Loose [] (tokensOf source) where
  cut _ _ _ hps hk := (exists_comment hps hk).1
  unescaped xs q ys hps hk := by
    obtain ⟨-, -, -, us, vs, hm, htext⟩ := exists_comment hps hk
    rw [List.nil_append, ← htext]
    exact h us q vs hm hk

/-- What surrounds a place, with comments and without them. -/
theorem surroundings (h : tokensOf source = xs ++ p :: ys) :
    Bared (EndsComment source) (textOf (p :: ys)) (marksOf xs).reverse
        (marksOf (uncomment xs)).reverse ∧
      Hushed (StartsComment source) (textOf ys) (textOf (uncomment ys)) := by
  constructor
  · refine bared_of_tokens fun us q vs hxs hk => ?_
    have hps : tokensOf source = us ++ q :: (vs ++ p :: ys) := by
      rw [h, hxs]
      simp
    obtain ⟨hcut, hends, -⟩ := exists_comment hps hk
    rw [textOf_append] at hcut
    exact ⟨hcut, hends⟩
  · refine hushed_of_tokens fun us q vs hys hk => ?_
    have hps : tokensOf source = (xs ++ p :: us) ++ q :: vs := by
      rw [h, hys]
      simp
    obtain ⟨hcut, -, hstarts, -⟩ := exists_comment hps hk
    exact ⟨hcut, hstarts⟩

theorem occurs_of_holds {site : Site} {t : List Char} (h : tokensOf source = xs ++ p :: ys)
    (hp : p.Holds (marksOf xs).reverse (textOf ys) t site) :
    Occurs source (byteLength (textOf xs ++ t))
      (byteLength (textOf xs ++ t) + byteLength site.name.toList) site := by
  have hheld : Held [] (tokensOf source) (textOf xs ++ t) site :=
    ⟨xs, p, ys, t, h, by rwa [List.append_nil], rfl⟩
  obtain ⟨fs, gs, hf, hlead⟩ := placed_of_held hheld
  exact occurs_iff.2 ⟨fs, gs, by rw [fragmentsOf_eq_placed, hf], by rw [hlead], rfl⟩

/-- What a token holds does not depend on what surrounds it. -/
theorem Piece.Holds.moved {before before' : List Mark} {after after' t : List Char} {site : Site}
    (h : p.Holds before after t site) :
    p.Holds before' after' t ⟨site.name, site.inCode, before', after'⟩ := by
  cases h with
  | word hw hd hne => exact .word hw hd hne
  | content hq ht hm => exact .content hq ht hm

end

end Source

/-! ### The same tests -/

section

variable {source : List Char} {s s' : Site} {after : List Char}

theorem isKey_uncommented (hbared : Bared (EndsComment source) after s.before s'.before)
    (hhushed : Hushed (StartsComment source) s.after s'.after)
    (h : s.isKey = true ∨ s'.isKey = true → ¬ Commented source s) : s'.isKey = s.isKey := by
  by_cases hkey : s.isKey = true ∨ s'.isKey = true
  · obtain ⟨hfront, hback⟩ := not_or.1 (h hkey)
    rw [Site.isKey, Site.isKey, hbared.entryStarts hfront, hhushed.colonFollows hback]
  · obtain ⟨h1, h2⟩ := not_or.1 hkey
    rw [Bool.not_eq_true] at h1 h2
    rw [h1, h2]

theorem isAttribute_uncommented (hbared : Bared (EndsComment source) after s.before s'.before)
    (hhushed : Hushed (StartsComment source) s.after s'.after) (hname : s'.name = s.name)
    (h : s.isAttribute = true ∨ s'.isAttribute = true →
      ¬ Commented source s ∧ ¬ TagCommented source s) : s'.isAttribute = s.isAttribute := by
  by_cases hattr : s.isAttribute = true ∨ s'.isAttribute = true
  · obtain ⟨hbeside, htag⟩ := h hattr
    obtain ⟨hfront, hback⟩ := not_or.1 hbeside
    have hstarts := hbared.attributeStarts hfront
    have hinside : attributeStarts s.before = true →
        insideTag 0 s.name.toList.head? s.before = insideTag 0 s.name.toList.head? s'.before := by
      intro hs
      refine hbared.insideTag (.inl rfl) (fun us vs hms hnext hvs => ?_) 0
      rcases List.eq_nil_or_concat us with rfl | ⟨us, m, rfl⟩
      · -- an attribute starts behind a blank
        rw [hms] at hs
        cases hs
      · rw [List.concat_eq_append, List.append_assoc] at hms
        refine htag ⟨us, m, vs, hms, ?_, hvs⟩
        simpa using hnext
    rw [Site.isAttribute, Site.isAttribute, ← hstarts, ← hhushed.assignmentFollows hback, hname]
    cases hs : attributeStarts s.before with
    | false => simp
    | true => rw [hinside hs]
  · obtain ⟨h1, h2⟩ := not_or.1 hattr
    rw [Bool.not_eq_true] at h1 h2
    rw [h1, h2]

end

/-! ### Fragments that agree -/

/-- Fragments of two texts that agree. Text that is kept may give way to blanks. -/
inductive Agreeing (rules : List Rule) (guarded : List String) : List Fragment → List Fragment → Prop
  | nil : Agreeing rules guarded [] []
  | cons {f f' : Fragment} {fs fs' : List Fragment} : f'.text = f.text →
    (verdict rules guarded f').rule? = (verdict rules guarded f).rule? →
    (verdict rules guarded f').skipName? = (verdict rules guarded f).skipName? →
    Agreeing rules guarded fs fs' → Agreeing rules guarded (f :: fs) (f' :: fs')
  | blanks {t bs : List Char} {fs fs' : List Fragment} : byteLength bs = byteLength t →
    feeds bs = feeds t → Agreeing rules guarded fs fs' →
    Agreeing rules guarded (.kept t :: fs) (bs.map (fun c => .kept [c]) ++ fs')

namespace Agreeing

variable {rules : List Rule} {guarded : List String} {fs fs' gs gs' : List Fragment}

theorem append (hf : Agreeing rules guarded fs fs') (hg : Agreeing rules guarded gs gs') :
    Agreeing rules guarded (fs ++ gs) (fs' ++ gs') := by
  induction hf with
  | nil => exact hg
  | cons htext hrule hskip _ ih => exact .cons htext hrule hskip ih
  | blanks hlen hfeeds _ ih =>
    rw [List.cons_append, List.append_assoc]
    exact .blanks hlen hfeeds ih

theorem kept (t : List Char) (h : Agreeing rules guarded fs fs') :
    Agreeing rules guarded (.kept t :: fs) (.kept t :: fs') :=
  .cons rfl rfl rfl h

theorem place {s s' : Site} (hname : s'.name = s.name) (hsel : select? rules s' = select? rules s)
    (h : Agreeing rules guarded fs fs') :
    Agreeing rules guarded (.place s :: fs) (.place s' :: fs') := by
  refine .cons (congrArg String.toList hname) ?_ ?_ h
  all_goals
    simp only [verdict, hsel, hname]
    cases select? rules s with
    | none => rfl
    | some q =>
      dsimp only
      split
      · simp [Verdict.rule?, Verdict.skipName?, hname]
      · rfl

theorem editsFrom_eq (h : Agreeing rules guarded fs fs') (pos : Nat) :
    editsFrom rules guarded pos fs' = editsFrom rules guarded pos fs := by
  have hkept : ∀ (bs : List Char) (pos : Nat) (fs : List Fragment),
      editsFrom rules guarded pos (bs.map (fun c => .kept [c]) ++ fs) =
        editsFrom rules guarded (pos + byteLength bs) fs := by
    intro bs
    induction bs with
    | nil => exact fun _ _ => by rw [byteLength_nil]; rfl
    | cons c bs ih =>
      intro pos fs
      rw [← List.singleton_append (x := c), byteLength_append, ← Nat.add_assoc, ← ih]
      rfl
  induction h generalizing pos with
  | nil => rfl
  | cons htext hrule _ _ ih => rw [editsFrom, editsFrom, htext, hrule, ih]
  | @blanks t bs fs fs' hlen _ _ ih =>
    rw [hkept, hlen, ih]
    rfl

theorem skipsFrom_eq (h : Agreeing rules guarded fs fs') (line : Nat) :
    skipsFrom rules guarded line fs' = skipsFrom rules guarded line fs := by
  have hkept : ∀ (bs : List Char) (line : Nat) (fs : List Fragment),
      skipsFrom rules guarded line (bs.map (fun c => .kept [c]) ++ fs) =
        skipsFrom rules guarded (line + feeds bs) fs := by
    intro bs
    induction bs with
    | nil => exact fun _ _ => rfl
    | cons c bs ih =>
      intro line fs
      rw [← List.singleton_append (x := c), feeds_append, ← Nat.add_assoc, ← ih]
      rfl
  induction h generalizing line with
  | nil => rfl
  | cons htext _ hskip _ ih => rw [skipsFrom, skipsFrom, htext, hskip, ih]
  | @blanks t bs fs fs' _ hfeeds _ ih =>
    rw [hkept, hfeeds, ih]
    rfl

end Agreeing

/-! ### The renaming without comments -/

theorem placed_blanks (before : List Mark) {bs : List Char} (hbs : ∀ c ∈ bs, isBlank c = true)
    (ps : List Piece) : placed before (bs.map (fun c => ⟨.code, [c]⟩) ++ ps) =
      bs.map (fun c => .kept [c]) ++ placed ((Piece.marks ⟨.code, bs⟩).reverse ++ before) ps := by
  induction bs generalizing before with
  | nil => rfl
  | cons c bs ih =>
    obtain ⟨hc, hbs⟩ := List.forall_mem_cons.1 hbs
    have hw : Piece.isWord ⟨.code, [c]⟩ = false := by simp [Piece.isWord, isWord_of_isBlank hc]
    have hkept : Piece.fragments before (textOf (bs.map (fun c => ⟨.code, [c]⟩) ++ ps))
        ⟨.code, [c]⟩ = [.kept [c]] := by
      simp [Piece.fragments, hw, Piece.content?]
    rw [List.map_cons, List.cons_append, placed, hkept, ih _ hbs, marks_cons .code c bs]
    rfl

section

variable {rules : List Rule} {guarded : List String} {source : String}

theorem tokensOf_uncommented (h : Unobscured rules source) :
    tokensOf (uncommented source).toList = uncomment (tokensOf source.toList) := by
  rw [toList_uncommented]
  exact tokensOf_uncomment (loose_tokensOf h.escaped)

theorem select?_uncommented (h : Unobscured rules source) {xs ys : List Piece} {p : Piece}
    (hps : tokensOf source.toList = xs ++ p :: ys) (hk : p.kind ≠ .comment) {t : List Char}
    {name : String} {inCode : Bool} (hs : p.Holds (marksOf xs).reverse (textOf ys) t
      ⟨name, inCode, (marksOf xs).reverse, textOf ys⟩) :
    select? rules ⟨name, inCode, (marksOf (uncomment xs)).reverse, textOf (uncomment ys)⟩ =
      select? rules ⟨name, inCode, (marksOf xs).reverse, textOf ys⟩ := by
  have hps' : tokensOf (uncommented source).toList = uncomment xs ++ p :: uncomment ys := by
    rw [tokensOf_uncommented h, hps, uncomment_append, uncomment_cons, p.uncomment_of_ne hk]
    rfl
  obtain ⟨hbared, hhushed⟩ := surroundings hps
  have hocc := occurs_of_holds hps hs
  have hocc' := occurs_of_holds hps' hs.moved
  have hstart : byteLength (textOf (uncomment xs) ++ t) = byteLength (textOf xs ++ t) := by
    rw [byteLength_append, byteLength_append, byteLength_textOf_uncomment]
  rw [hstart] at hocc'
  refine select?_congr rfl fun r hr hold => ?_
  cases hscope : r.scope with
  | identifier => rfl
  | stringLiteral => rfl
  | objectKey =>
    exact isKey_uncommented hbared hhushed (h.keys r hr hscope _ _ _ _ hocc hocc' hold)
  | jsxAttribute =>
    cases inCode with
    | false => rfl
    | true =>
      exact isAttribute_uncommented hbared hhushed rfl
        (h.attributes r hr hscope _ _ _ _ hocc hocc' hold rfl)

theorem agreeing_fragments (h : Unobscured rules source) {xs ys : List Piece} {p : Piece}
    (hps : tokensOf source.toList = xs ++ p :: ys) (hk : p.kind ≠ .comment) :
    Agreeing rules guarded (p.fragments (marksOf xs).reverse (textOf ys))
      (p.fragments (marksOf (uncomment xs)).reverse (textOf (uncomment ys))) := by
  have hsel := fun {t name inCode} => @select?_uncommented _ _ h _ _ _ hps hk t name inCode
  unfold Piece.fragments
  split
  · next hw =>
    split
    · exact .kept _ .nil
    · next hd =>
      refine .place rfl (hsel (.word hw ?_ ?_)) .nil
      · intro c hc
        simpa [Option.mem_def.1 hc] using hd
      · intro hnil
        simp [hnil] at hd
  · cases hm : p.content? with
    | none => exact .kept _ .nil
    | some m =>
      obtain ⟨-, q, hq, ht⟩ := Piece.text_of_content? hm
      exact .kept _ (.place rfl (hsel (.content hq ht hm)) (.kept _ .nil))

theorem agreeing_placed (h : Unobscured rules source) {xs ys : List Piece}
    (hps : tokensOf source.toList = xs ++ ys) :
    Agreeing rules guarded (placed (marksOf xs).reverse ys)
      (placed (marksOf (uncomment xs)).reverse (uncomment ys)) := by
  induction ys generalizing xs with
  | nil => exact .nil
  | cons p ps ih =>
    have ih := @ih (xs ++ [p]) (by rw [hps, List.append_assoc]; rfl)
    rw [marksOf_concat_reverse, uncomment_append, uncomment_singleton, marksOf_append,
      List.reverse_append] at ih
    rw [uncomment_cons, placed]
    by_cases hk : p.kind = .comment
    · have hkept : p.fragments (marksOf xs).reverse (textOf ps) = [.kept p.text] := by
        simp [Piece.fragments, Piece.isWord, Piece.content?, hk]
      rw [Piece.uncomment, if_pos hk, placed_blanks _ (isBlank_of_mem_bare hk), hkept]
      rw [p.marksOf_uncomment hk] at ih
      exact .blanks p.byteLength_bare p.feeds_bare ih
    · rw [p.uncomment_of_ne hk, List.singleton_append, placed]
      rw [p.uncomment_of_ne hk, marksOf_cons, marksOf_nil, List.append_nil] at ih
      exact (agreeing_fragments h hps hk).append ih

/-- **Comments do not influence a renaming** in which they hide nothing: there are the same edits
and the same skips in the source without its comments. -/
theorem rename_uncommented (guarded : List String) (h : Unobscured rules source) : ∃ edits,
    Rewrites rules guarded source (rename rules guarded source) edits ∧
      Rewrites rules guarded (uncommented source) (rename rules guarded (uncommented source)) edits ∧
      (rename rules guarded (uncommented source)).skipped = (rename rules guarded source).skipped := by
  have hagree : Agreeing rules guarded (fragmentsOf source.toList)
      (fragmentsOf (uncommented source).toList) := by
    rw [fragmentsOf_eq_placed, fragmentsOf_eq_placed, tokensOf_uncommented h]
    exact @agreeing_placed _ _ _ h [] _ rfl
  have hedits : editsOf rules guarded (uncommented source) = editsOf rules guarded source :=
    hagree.editsFrom_eq 0
  refine ⟨editsOf rules guarded source, rewrites_editsOf .., ?_, ?_⟩
  · rw [← hedits]
    exact rewrites_editsOf ..
  · rw [skipped_rename, skipped_rename]
    exact hagree.skipsFrom_eq 1

end

/-- Entries of an object of which one ends in a comment. -/
def commentedEntry : String := "\x7b a: 1 /* \x7b */, b: 2 \x7d"

def entryRules : List Rule := [⟨"b", "c", .objectKey⟩]

theorem pieces_commentedEntry {ps qs : List Piece} {p : Piece}
    (h : pieces commentedEntry.toList = ps ++ p :: qs) (hk : p.kind = .comment) :
    ps = [⟨.code, "\x7b a: 1 ".toList⟩] ∧ p = ⟨.comment, "/* \x7b */".toList⟩ ∧
      qs = [⟨.code, ", b: 2 \x7d".toList⟩] := by
  have hpieces : pieces commentedEntry.toList = [⟨.code, "\x7b a: 1 ".toList⟩,
      ⟨.comment, "/* \x7b */".toList⟩, ⟨.code, ", b: 2 \x7d".toList⟩] := by decide +kernel
  rw [hpieces] at h
  rcases ps with _ | ⟨x, _ | ⟨y, _ | ⟨z, ps⟩⟩⟩
  · obtain ⟨rfl, -⟩ := List.cons.inj h
    cases hk
  · simp only [List.cons_append, List.nil_append, List.cons.injEq] at h
    exact ⟨by rw [h.1], h.2.1.symm, h.2.2.symm⟩
  · simp only [List.cons_append, List.nil_append, List.cons.injEq] at h
    rw [← h.2.2.1] at hk
    cases hk
  · simp at h

/-- Whether a fragment is the place of the entry behind the comment only if it stands there: with a
comma and a blank behind the comment. -/
def isBehindComma : Fragment → Bool
  | .kept _ => true
  | .place s => s.name != "b" ||
      (s.before.length == 16 && s.before[1]? == some ⟨',', true⟩ && s.after.length == 5)

theorem not_commented_entry {s : Site} (hs : .place s ∈ fragmentsOf commentedEntry.toList)
    (hname : "b" = s.name) : ¬ Commented commentedEntry.toList s := by
  have hall : (fragmentsOf commentedEntry.toList).all isBehindComma = true := by decide +kernel
  obtain ⟨hlen, hcomma, hafter⟩ : s.before.length = 16 ∧ s.before[1]? = some ⟨',', true⟩ ∧
      s.after.length = 5 := by
    simpa [isBehindComma, ← hname, and_assoc] using List.all_eq_true.1 hall _ hs
  rintro (⟨u, y, hu, hy, ps, p, qs, hp, hk, rfl⟩ | ⟨u, y, -, hy, ps, p, qs, hp, hk, rfl⟩)
  · obtain ⟨rfl, rfl, -⟩ := pieces_commentedEntry hp hk
    have hshort : (marksOf ([⟨.code, "\x7b a: 1 ".toList⟩] ++
        [⟨.comment, "/* \x7b */".toList⟩])).reverse.length = 14 := rfl
    rw [hy, List.length_append] at hlen
    rw [hy, List.getElem?_append_left (by omega)] at hcomma
    exact absurd (hu _ (List.mem_of_getElem? hcomma)) (by decide)
  · obtain ⟨-, rfl, rfl⟩ := pieces_commentedEntry hp hk
    have hlong : (textOf [⟨.comment, "/* \x7b */".toList⟩,
        ⟨.code, ", b: 2 \x7d".toList⟩]).length = 15 := rfl
    rw [hy, List.length_append] at hafter
    omega

theorem unobscured_commentedEntry : Unobscured entryRules commentedEntry where
  escaped ps p qs hp hk := by
    obtain ⟨rfl, -, -⟩ := pieces_commentedEntry hp hk
    decide
  keys r hr _ start stop s s' hs _ hold _ := by
    obtain rfl := List.mem_singleton.1 hr
    exact not_commented_entry (mem_of_occurs hs) hold
  attributes r hr hscope := by
    obtain rfl := List.mem_singleton.1 hr
    cases hscope

/-- The entry behind the comment is renamed with it and without it. -/
theorem rename_uncommented_entry : Unobscured entryRules commentedEntry ∧
    (rename entryRules [] commentedEntry).occurrences = 1 ∧ ∃ edits,
      Rewrites entryRules [] commentedEntry (rename entryRules [] commentedEntry) edits ∧
        Rewrites entryRules [] (uncommented commentedEntry)
          (rename entryRules [] (uncommented commentedEntry)) edits ∧
        (rename entryRules [] (uncommented commentedEntry)).skipped =
          (rename entryRules [] commentedEntry).skipped :=
  ⟨unobscured_commentedEntry, by decide +kernel, rename_uncommented [] unobscured_commentedEntry⟩

/-- Entries of an object of which one stands behind the comment of the other. -/
def hiddenKey : String := "f(\x7b a: 1, // first\n userId: 2 \x7d)"

def keyRules : List Rule := [⟨"userId", "user_id", .objectKey⟩]

/-- A comment in front of a key hides the comma that the key stands behind. -/
theorem comment_hides_key : ¬ ∃ edits,
    Rewrites keyRules [] hiddenKey (rename keyRules [] hiddenKey) edits ∧
      Rewrites keyRules [] (uncommented hiddenKey) (rename keyRules [] (uncommented hiddenKey))
        edits := by
  rintro ⟨edits, h, h'⟩
  have hnone : (rename keyRules [] hiddenKey).occurrences = 0 := by decide +kernel
  have hone : (rename keyRules [] (uncommented hiddenKey)).occurrences = 1 := by decide +kernel
  have hedits := h.occurrences.symm.trans hnone
  have hedits' := h'.occurrences.symm.trans hone
  omega

end Renaming
