import Renaming.Proofs.Rename.Delimited
import Renaming.Proofs.Rename.Inverse
import Renaming.Proofs.Rename.Leading
import Renaming.Proofs.Rename.Pieces

/-!
Strings that stay strings. Where a renaming rewrites the content of a closed string, the result should
hold one closed string in its place, with the same quotes and the new name in it: `Intact`.

* `BreaksNothing`: what is asked of the leading rules for that. A text may not open a substitution,
  nor end a regular expression that the old text was no part of the end of, and an identifier may not
  turn the slash behind it into the start of a regular expression, or back.
* `intact_of_breaksNothing`: then every source stays intact.
* `breaksNothing_of_isPlainName`: it is so for plain names.

The pieces of both texts go back to tokens (`intact_of_tokens` and `Intact.exists_token`), and a string
among the tokens is settled on its own, whatever letters regular expressions take in front of it.
-/

namespace Renaming

open Renaming.Source

/-! ### What is asked -/

/-- The bytes of the result of some edits up to where the text `front`, with which the source starts,
has ended. -/
def frontAfter (rules : List Rule) (edits : List Edit) (front : List Char) : List UInt8 :=
  splice rules 0 (editsWithin edits 0 (byteLength front)) (utf8 front)

/-- Wherever the content of a closed string is rewritten, the result has in its place one piece that
is a closed string between the same quotes, and the new name of the rule is its content. -/
def Intact (rules : List Rule) (guarded : List String) (source : String) : Prop :=
  ∀ ps p qs m, pieces source.toList = ps ++ p :: qs → p.content? = some m →
    ∀ e ∈ editsOf rules guarded source, e.start = byteLength (textOf ps) + 1 →
      e.stop = e.start + byteLength m →
        ∃ ps' p' qs', pieces (rename rules guarded source).text.toList = ps' ++ p' :: qs' ∧
          utf8 (textOf ps') = frontAfter rules (editsOf rules guarded source) (textOf ps) ∧
          p'.content? = some (newName rules e.rule) ∧ p'.text.head? = p.text.head?

/-- No leading rule breaks a string open: not by the text that it writes into one, and not by what
it makes of a slash in front of one. -/
structure BreaksNothing (rules : List Rule) (guarded : List String) : Prop where
  opens : ∀ r, Leading rules guarded .stringLiteral r → ['$', '{'] <:+: r.new.toList →
    ['$', '{'] <:+: r.old.toList
  frames : ∀ r, Leading rules guarded .stringLiteral r → Shelters r.old.toList r.new.toList
  regex : ∀ z, Leading rules guarded .stringLiteral z ∨ Leading rules guarded .objectKey z →
    ∀ r, Leading rules guarded .identifier r → ∀ p, Touches p r.old.toList →
      (joined p r.old ∈ regexKeywords ↔ joined p r.new ∈ regexKeywords)

section

variable {rules : List Rule} {guarded : List String} {source : String}

/-! ### Strings among the tokens -/

/-- The text in front of a token after the renaming. -/
theorem exists_front (guarded : List String) (hne : ∀ r ∈ rules, r.old ≠ "") {xs ys : List Piece}
    (h : tokensOf source.toList = xs ++ ys) :
    ∃ xs', redrawn (nameAfter rules guarded) [] (tokensOf source.toList) =
        xs' ++ redrawn (nameAfter rules guarded) (marksOf xs).reverse ys ∧
      utf8 (textOf xs') = frontAfter rules (editsOf rules guarded source) (textOf xs) := by
  obtain ⟨xs', fs, hredrawn, hplaced, hfs, hxs'⟩ :=
    exists_redrawn_append (nameAfter rules guarded) [] xs ys
  rw [List.append_nil] at hredrawn hplaced
  refine ⟨xs', by rw [h, hredrawn], ?_⟩
  have hedits : editsOf rules guarded source = editsFrom rules guarded 0 fs ++
      editsFrom rules guarded (byteLength (textOf xs)) (placed (marksOf xs).reverse ys) := by
    rw [editsOf, fragmentsOf_eq_placed, h, hplaced, editsFrom_append, hfs, Nat.zero_add]
  have hwithin : editsWithin (editsOf rules guarded source) 0 (byteLength (textOf xs)) =
      editsFrom rules guarded 0 fs := by
    rw [hedits, editsWithin_append, editsWithin_eq_self, editsWithin_eq_nil, List.append_nil]
    · intro e he
      have hbounds := bounds_of_mem hne he
      omega
    · intro e he
      have hbounds := bounds_of_mem hne he
      rw [hfs] at hbounds
      omega
  have hsplice : splice rules 0 (editsFrom rules guarded 0 fs) (utf8 (fs.flatMap Fragment.text)) =
      utf8 (fs.flatMap (rendered rules guarded)) := splice_editsFrom 0 [] fs
  have hrendered : textOf xs' = fs.flatMap (rendered rules guarded) := by
    rw [hxs']
    exact congrArg (List.flatMap · fs) (funext redraw_nameAfter)
  rw [frontAfter, hwithin, ← hfs, hsplice, hrendered]

/-- A closed string of which the content is renamed, among the tokens of a source. -/
structure Rewritten (rules : List Rule) (guarded : List String) (source : String)
    (xs : List Piece) (p : Piece) (ys : List Piece) (r : Rule) : Prop where
  tokens : tokensOf source.toList = xs ++ p :: ys
  content : p.content? = some r.old.toList
  chosen : ∃ i, Chosen rules ⟨r.old, false, (marksOf xs).reverse, textOf ys⟩ i r
  unguarded : r.old ∉ guarded

theorem Rewritten.nameAfter {xs ys : List Piece} {p : Piece} {r : Rule}
    (h : Rewritten rules guarded source xs p ys r) :
    nameAfter rules guarded ⟨r.old, false, (marksOf xs).reverse, textOf ys⟩ = r.new := by
  obtain ⟨i, hi⟩ := h.chosen
  exact nameAfter_of_chosen hi h.unguarded

theorem intact_of_tokens (h : ∀ xs p ys r, Rewritten rules guarded source xs p ys r →
      ∃ us p' vs, tokensOf (rename rules guarded source).text.toList = us ++ p' :: vs ∧
        utf8 (textOf us) = frontAfter rules (editsOf rules guarded source) (textOf xs) ∧
        p'.content? = some r.new.toList ∧ p'.text.head? = p.text.head?) :
    Intact rules guarded source := by
  intro ps p qs m hp hm e he hstart hstop
  have hk : p.kind ≠ .code := by simp [(Piece.text_of_content? hm).1]
  obtain ⟨site, r, hs, hg, hr⟩ := mem_editsOf_iff.1 he
  have hoccurs := Occurs.content hp hm
  rw [← hstart, ← hstop] at hoccurs
  obtain rfl := hs.unique hoccurs
  have hold : r.old = String.ofList m := hr.1.2.1
  rw [pieces_eq_mergeAll] at hp
  obtain ⟨xs, ys, htokens, hmarks, hrest⟩ := exists_token (a := []) (w := p.text) (b := [])
    (wellCut_tokens .start source.toList) hp (by simp) ((around_of_ne hk).2 ⟨rfl, rfl⟩)
  have hmarks' : marksOf ps = marksOf xs := by simpa [Piece.marks] using hmarks
  rw [List.nil_append] at hrest
  obtain ⟨us, p', vs, hout, hfront, hcontent, hhead⟩ := h xs p ys r ⟨htokens, by simp [hold, hm],
    ⟨e.rule, by rwa [hold, ← hmarks', ← hrest]⟩, by rwa [hold]⟩
  have hk' : p'.kind ≠ .code := by simp [(Piece.text_of_content? hcontent).1]
  have hcut := wellCut_tokens .start (rename rules guarded source).text.toList
  change WellCut (tokensOf _) at hcut
  rw [hout] at hcut
  obtain ⟨ps', qs', hpieces, hmarks'', -⟩ := exists_piece_of_ne hcut hk'
  refine ⟨ps', p', qs', ?_, ?_, ?_, hhead⟩
  · rw [pieces_eq_mergeAll, hout, hpieces]
  · rw [textOf_eq_of_marksOf hmarks'', hfront, textOf_eq_of_marksOf hmarks']
  · rw [hcontent, newName, hr.1.1]
    rfl

/-- In a source that stays intact each rewritten string is found again. -/
theorem Intact.exists_token (h : Intact rules guarded source) {xs ys : List Piece} {p : Piece}
    {r : Rule} (hp : Rewritten rules guarded source xs p ys r) :
    ∃ us p' vs, tokensOf (rename rules guarded source).text.toList = us ++ p' :: vs ∧
      utf8 (textOf us) = frontAfter rules (editsOf rules guarded source) (textOf xs) ∧
      p'.content? = some r.new.toList := by
  have hk : p.kind ≠ .code := by simp [(Piece.text_of_content? hp.content).1]
  obtain ⟨i, hr⟩ := hp.chosen
  have hcut := wellCut_tokens .start source.toList
  change WellCut (tokensOf _) at hcut
  rw [hp.tokens] at hcut
  obtain ⟨ps, qs, hpieces, hmarks, hrest⟩ := exists_piece_of_ne hcut hk
  rw [← hp.tokens, ← pieces_eq_mergeAll] at hpieces
  have hoccurs := Occurs.content hpieces hp.content
  rw [hmarks, hrest, String.ofList_toList, textOf_eq_of_marksOf hmarks] at hoccurs
  have hedit : ⟨byteLength (textOf xs) + 1, byteLength (textOf xs) + 1 + byteLength r.old.toList, i⟩ ∈
      editsOf rules guarded source := mem_editsOf_iff.2 ⟨_, r, hoccurs, hp.unguarded, hr⟩
  obtain ⟨ps', p', qs', hout, hfront, hcontent, -⟩ := h ps p qs _ hpieces hp.content _ hedit
    (by rw [textOf_eq_of_marksOf hmarks]) rfl
  have hk' : p'.kind ≠ .code := by simp [(Piece.text_of_content? hcontent).1]
  rw [pieces_eq_mergeAll] at hout
  obtain ⟨us, vs, htokens, hmarks', -⟩ := Source.exists_token (a := []) (w := p'.text) (b := [])
    (wellCut_tokens .start _) hout (by simp) ((around_of_ne hk').2 ⟨rfl, rfl⟩)
  refine ⟨us, p', vs, htokens, ?_, ?_⟩
  · rw [← textOf_eq_of_marks hmarks', List.append_nil, hfront, textOf_eq_of_marksOf hmarks]
  · rw [hcontent, newName, hr.1.1]
    rfl

/-! ### Nothing is broken -/

/-- Fit rules that break nothing are tame where they are used. -/
theorem BreaksNothing.tame (h : BreaksNothing rules guarded) (hfit : ∀ r ∈ rules, r.unfit? = none)
    {z : Rule} (hz : Leading rules guarded .stringLiteral z ∨ Leading rules guarded .objectKey z)
    {s : Site} {i : Nat} {r : Rule} (hr : Chosen rules s i r) (hg : s.name ∉ guarded) :
    r.Tame fun _ _ => True := by
  have hleading := hr.leading hg
  refine Rule.tame_of_fit (hfit r hleading.mem) ?_ ?_
  · intro hs
    rw [hs] at hleading
    refine ⟨?_, fun _ _ => trivial, fun _ _ => trivial⟩
    intro p hp
    rw [Bool.eq_iff_iff, List.contains_iff_mem, List.contains_iff_mem]
    exact (h.regex z hz r hleading p hp).symm
  · intro hs
    rw [hs] at hleading
    exact ⟨h.frames r hleading, h.opens r hleading⟩

theorem Source.Piece.isRegex_eq_false_of_content? {p : Piece} {m : List Char}
    (h : p.content? = some m) : p.isRegex = false := by
  obtain ⟨-, q, hq, ht⟩ := Piece.text_of_content? h
  have hslash : q ≠ '/' := by
    rintro rfl
    cases hq
  simp [Piece.isRegex, ht, hslash]

theorem content?_redraw {L : Bool → Bool → Prop} {ren : Site → String} {before : List Mark}
    {after : List Char} {p : Piece} {m m' : String} (hm : p.content? = some m.toList)
    (hren : ren ⟨m, false, before, after⟩ = m')
    (hallowed : Allowed L ⟨m, false, before, after⟩ m') :
    (p.redraw ren before after).content? = some m'.toList ∧
      (p.redraw ren before after).text.head? = p.text.head? := by
  obtain ⟨hk, q, hq, ht⟩ := Piece.text_of_content? hm
  obtain rfl : p = ⟨.literal, q :: (m.toList ++ [q])⟩ := by
    rw [← hk, ← ht]
  have hredraw : Piece.redraw ren before after ⟨.literal, q :: (m.toList ++ [q])⟩ =
      ⟨.literal, q :: (m'.toList ++ [q])⟩ := by
    rw [Piece.redraw, Piece.fragments_content hm]
    simp [Fragment.redraw, hren]
  rw [hredraw]
  refine ⟨?_, rfl⟩
  cases hallowed with
  | same => exact hm
  | word hcode => cases hcode
  | content _ hframe => exact content?_of_plain hq hframe.plain'

/-- **Rules that break nothing leave every source intact.** -/
theorem intact_of_breaksNothing (hfit : ∀ r ∈ rules, r.unfit? = none)
    (h : BreaksNothing rules guarded) (source : String) : Intact rules guarded source := by
  apply intact_of_tokens
  intro xs p ys r hp
  obtain ⟨i, hr⟩ := hp.chosen
  -- the rule that rewrites the string is one for strings or keys
  have hz : Leading rules guarded .stringLiteral r ∨ Leading rules guarded .objectKey r := by
    have hleading := hr.leading hp.unguarded
    have hadm := hr.1.2.2
    cases hs : r.scope with
    | stringLiteral => exact .inl (hs ▸ hleading)
    | objectKey => exact .inr (hs ▸ hleading)
    | identifier => simp [hs, Scope.admits] at hadm
    | jsxAttribute => simp [hs, Scope.admits] at hadm
  have hsafe : Safe (nameAfter rules guarded) (fun _ _ => True) [] (tokensOf source.toList) :=
    safe_of_chosen (fun _ _ _ hr hg => h.tame hfit hz hr hg) [] _
  have hne : ∀ r ∈ rules, r.old ≠ "" :=
    fun r hr => (Rule.unfit?_eq_none_iff.1 (hfit r hr)).1.1
  obtain ⟨xs', hredrawn, hfront⟩ := exists_front guarded hne hp.tokens
  obtain ⟨hcontent, hhead⟩ := content?_redraw hp.content hp.nameAfter
    ((h.tame hfit hz hr hp.unguarded).allowed hr.1.2.1 hr.1.2.2)
  have hregex := Piece.isRegex_eq_false_of_content? hcontent
  have hcode : (p.redraw (nameAfter rules guarded) (marksOf xs).reverse (textOf ys)).kind ≠ .code := by
    simp [(Piece.text_of_content? hcontent).1]
  have htokens : tokensOf (rename rules guarded source).text.toList =
      settle xs' ++ p.redraw (nameAfter rules guarded) (marksOf xs).reverse (textOf ys) ::
        settle (redrawn (nameAfter rules guarded) (p.marks.reverse ++ (marksOf xs).reverse) ys) := by
    rw [text_rename_eq, tokensOf_redrawn hsafe, hredrawn, redrawn, settle_append hcode hregex]
  refine ⟨settle xs', _, _, htokens, ?_, hcontent, hhead⟩
  rw [textOf_settle, hfront]

/-- Rules with plain names break nothing. -/
theorem breaksNothing_of_isPlainName
    (h : ∀ r ∈ rules, isPlainName r.old = true ∧ isPlainName r.new = true) :
    BreaksNothing rules guarded := by
  have hframe : ∀ r ∈ rules, KeepsFrame r.old.toList r.new.toList ∧
      ¬ ['$', '{'] <:+: r.new.toList := by
    intro r hr
    obtain ⟨hold, hnew⟩ := h r hr
    simp only [isPlainName, Bool.and_eq_true] at hold hnew
    have ho := (isName_of_isLetterName hold.1.1).1.isIdentifier
    have hn := (isName_of_isLetterName hnew.1.1).1.isIdentifier
    exact ⟨keepsFrame_of_isIdentifier ho hn, not_infix_of_isIdentifier hn⟩
  constructor
  · intro r hr hopen
    exact absurd hopen (hframe r hr.mem).2
  · intro r hr
    exact (hframe r hr.mem).1.shelters
  · intro z _ r hr p hp
    have hsteady := steady_of_isPlainName (h r hr.mem).1 (h r hr.mem).2
    rw [← List.contains_iff_mem, ← List.contains_iff_mem, hsteady.regex p hp]

end

end Renaming
