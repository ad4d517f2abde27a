import Renaming.Proofs.Source.Settle

/-!
The places of settled tokens. Where a regular expression takes letters, these are marked as parts
of a literal and not as code. `Faded` relates the marks in front of a place with the letters as they
are and as they were, and no test of a place sees a difference.

* `Faded.agrees`: the tests of a place.
* `exists_of_placed_settle`: the places of settled tokens are those of the tokens, and the rests of
  names of which letters were taken.
-/

namespace Renaming.Source

open Renaming.Text (isBlank)

/-! ### Letters that are code or not -/

/-- The same characters, of which letters may be code in one text and none in the other. -/
def Faded (ms ms' : List Mark) : Prop :=
  List.Forall₂ (fun m m' => m.char = m'.char ∧ (m.inCode = m'.inCode ∨ isFlag m.char = true)) ms ms'

namespace Faded

variable {ms ms' : List Mark}

theorem refl (ms : List Mark) : Faded ms ms :=
  List.forall₂_same.2 fun _ _ => ⟨rfl, .inl rfl⟩

theorem append {ns ns' : List Mark} (h : Faded ms ms') (h' : Faded ns ns') :
    Faded (ms ++ ns) (ms' ++ ns') :=
  List.rel_append h h'

/-- Letters of a literal and the same letters as code. -/
theorem marks {f : List Char} (hf : ∀ c ∈ f, isFlag c = true) (k k' : Kind) :
    Faded (Piece.marks ⟨k, f⟩).reverse (Piece.marks ⟨k', f⟩).reverse := by
  rw [Piece.marks, Piece.marks, ← List.map_reverse, ← List.map_reverse]
  refine List.forall₂_map_left_iff.2 (List.forall₂_map_right_iff.2 (List.forall₂_same.2 ?_))
  exact fun c hc => ⟨rfl, .inr (hf c (List.mem_reverse.1 hc))⟩

theorem map_char (h : Faded ms ms') : ms.map Mark.char = ms'.map Mark.char := by
  induction h with
  | nil => rfl
  | cons hm _ ih => rw [List.map_cons, List.map_cons, hm.1, ih]

theorem head_cases (h : Faded ms ms') : (ms = [] ∧ ms' = []) ∨
    ∃ m m' t t', ms = m :: t ∧ ms' = m' :: t' ∧ m.char = m'.char := by
  cases h with
  | nil => exact .inl ⟨rfl, rfl⟩
  | cons hm => exact .inr ⟨_, _, _, _, rfl, rfl, hm.1⟩

theorem skipBlankMarks (h : Faded ms ms') : Faded (skipBlankMarks ms) (skipBlankMarks ms') := by
  induction h with
  | nil => exact .nil
  | @cons m m' ms ms' hm h ih =>
    by_cases hb : isBlank m.char = true
    · rw [skipBlankMarks_of_isBlank hb, skipBlankMarks_of_isBlank (hm.1 ▸ hb)]
      exact ih
    · rw [Bool.not_eq_true] at hb
      rw [skipBlankMarks_of_not_isBlank hb, skipBlankMarks_of_not_isBlank (hm.1 ▸ hb)]
      exact .cons hm h

theorem isIdentifier_of_isFlag {c : Char} (h : isFlag c = true) : isIdentifier c = true := by
  unfold isFlag at h
  simp [isIdentifier, Char.isAlphanum, h]

theorem innermost (h : Faded ms ms') (d : Nat) : innermost d ms = innermost d ms' := by
  induction h generalizing d with
  | nil => rfl
  | @cons m m' ms ms' hm _ ih =>
    obtain ⟨hc, hcode | hflag⟩ := hm
    · simp only [Source.innermost, hc, hcode, ih]
    · -- a letter is no bracket, so it does not matter whether it is code
      obtain ⟨h1, h2⟩ := Behind.not_bracket_of_isIdentifier (isIdentifier_of_isFlag hflag)
      rw [hc] at h1 h2
      simp only [Source.innermost, hc, h1, h2, ih]
      cases m.inCode <;> cases m'.inCode <;> rfl

theorem entryStarts (h : Faded ms ms') : entryStarts ms = entryStarts ms' := by
  unfold Source.entryStarts
  rw [h.innermost]
  rcases h.skipBlankMarks.head_cases with ⟨h1, h2⟩ | ⟨m, m', t, t', h1, h2, hc⟩
  · rw [h1, h2]
  · simp only [h1, h2, hc]

theorem opensTag (h : Faded ms ms') (next : Option Char) : opensTag next ms = opensTag next ms' := by
  have hchars := h.skipBlankMarks.map_char
  unfold Source.opensTag
  rcases h.skipBlankMarks.head_cases with ⟨h1, h2⟩ | ⟨m, m', t, t', h1, h2, hc⟩
  · rw [h1, h2]
  · rw [h1, h2] at hchars
    simp only [h1, h2, hc, hchars]

theorem insideTag (h : Faded ms ms') (d : Nat) (next : Option Char) :
    insideTag d next ms = insideTag d next ms' := by
  induction h generalizing d next with
  | nil => rfl
  | @cons m m' ms ms' hm h ih =>
    obtain ⟨hc, hcode | hflag⟩ := hm
    · simp only [Source.insideTag, hc, hcode, ih, opensTag h]
    · have hi := isIdentifier_of_isFlag hflag
      rw [Behind.insideTag_cons (fun _ => Behind.not_mem_tagMarks hi),
        Behind.insideTag_cons (fun _ => Behind.not_mem_tagMarks (hc ▸ hi)), hc, ih]

theorem attributeStarts (h : Faded ms ms') : attributeStarts ms = attributeStarts ms' := by
  have hchars := h.skipBlankMarks.map_char
  unfold Source.attributeStarts
  congr 1
  · rcases h.head_cases with ⟨rfl, rfl⟩ | ⟨m, m', t, t', rfl, rfl, hc⟩
    · rfl
    · simp only [hc]
  · rcases h.skipBlankMarks.head_cases with ⟨h1, h2⟩ | ⟨m, m', t, t', h1, h2, hc⟩
    · rw [h1, h2]
    · rw [h1, h2] at hchars
      simp only [h1, h2, hc, hchars]

end Faded

/-! ### Places that agree -/

/-- Two places of which the tests say the same. -/
structure Site.Agrees (s s' : Site) : Prop where
  name : s.name = s'.name
  inCode : s.inCode = s'.inCode
  isKey : s.isKey = s'.isKey
  isAttribute : s.isAttribute = s'.isAttribute

theorem Site.Agrees.refl (s : Site) : s.Agrees s := ⟨rfl, rfl, rfl, rfl⟩

theorem Site.Agrees.trans {s₁ s₂ s₃ : Site} (h : s₁.Agrees s₂) (h' : s₂.Agrees s₃) :
    s₁.Agrees s₃ :=
  ⟨h.name.trans h'.name, h.inCode.trans h'.inCode, h.isKey.trans h'.isKey,
    h.isAttribute.trans h'.isAttribute⟩

theorem Faded.agrees {b b' : List Mark} (h : Faded b b') (name : String) (inCode : Bool)
    (after : List Char) : Site.Agrees ⟨name, inCode, b, after⟩ ⟨name, inCode, b', after⟩ where
  name := rfl
  inCode := rfl
  isKey := by rw [Site.isKey, Site.isKey, h.entryStarts]
  isAttribute := by rw [Site.isAttribute, Site.isAttribute, h.attributeStarts, h.insideTag]

/-- A place of a token is there too when other marks precede the token. -/
theorem place_mem_fragments {p : Piece} {b : List Mark} {after : List Char} {s : Site}
    (h : .place s ∈ p.fragments b after) (b' : List Mark) : s.before = b ∧ s.after = after ∧
      .place ⟨s.name, s.inCode, b', after⟩ ∈ p.fragments b' after := by
  unfold Piece.fragments at h ⊢
  split at h
  · next hw =>
    rw [if_pos hw]
    split at h
    · simp at h
    · next hd =>
      obtain rfl : s = _ := by simpa using h
      simp [hd]
  · next hw =>
    rw [if_neg hw]
    split at h
    · next m hm =>
      obtain rfl : s = _ := by simpa using h
      simp
    · simp at h

/-- The places of tokens do not depend on whether letters in front of them are code. -/
theorem exists_of_placed_faded {b b' : List Mark} (h : Faded b b') {ps : List Piece} {s : Site}
    (hs : .place s ∈ placed b ps) : ∃ s', .place s' ∈ placed b' ps ∧ s.Agrees s' := by
  induction ps generalizing b b' with
  | nil => simp [placed] at hs
  | cons p ps ih =>
    rcases List.mem_append.1 hs with hs | hs
    · obtain ⟨name, inCode, before, after⟩ := s
      obtain ⟨rfl, rfl, hs'⟩ := place_mem_fragments hs b'
      exact ⟨_, List.mem_append_left _ hs', h.agrees name inCode _⟩
    · obtain ⟨s', hs', hagrees⟩ := ih ((Faded.refl _).append h) hs
      exact ⟨s', List.mem_append_right _ hs', hagrees⟩

theorem textOf_absorb (p : Piece) (ps : List Piece) : textOf (p.absorb ps) = p.text ++ textOf ps := by
  unfold Piece.absorb
  split
  · next w qs =>
    have hw := List.takeWhile_append_dropWhile (p := isFlag) (l := w)
    split
    · next hd =>
      rw [hd, List.append_nil] at hw
      simp [hw]
    · simp only [textOf_cons]
      rw [List.append_assoc, ← List.append_assoc (w.takeWhile isFlag), hw]
  · rfl

theorem textOf_settle (ps : List Piece) : textOf (settle ps) = textOf ps := by
  induction ps with
  | nil => rfl
  | cons p ps ih =>
    rw [settle]
    split
    · rw [textOf_absorb, ih, textOf_cons]
    · rw [textOf_cons, textOf_cons, ih]

theorem fragments_regex {p : Piece} (hp : p.isRegex = true) (b : List Mark) (after : List Char) :
    p.fragments b after = [.kept p.text] := by
  have hshape := p.shape b after
  generalize p.fragments b after = fs at hshape ⊢
  cases hshape with
  | kept => rfl
  | word => cases hp
  | @content q m hq =>
    have hne : q ≠ '/' := by
      rintro rfl
      cases hq
    simp [Piece.isRegex, hne] at hp

/-- What touches a regular expression or a word in front of it is neither a key nor an attribute. -/
theorem Site.not_key_of_touched {s : Site}
    (h : ∃ m ∈ s.before.head?, m.char = '/' ∨ isWord m.char = true) :
    s.isKey = false ∧ s.isAttribute = false := by
  obtain ⟨m, hm, hw⟩ := h
  have hnot : ¬ ∀ m ∈ s.before.head?, m.char ≠ '/' ∧ isWord m.char = false := by
    intro h
    rcases hw with hw | hw
    · exact (h m hm).1 hw
    · rw [(h m hm).2] at hw
      cases hw
  constructor <;> rw [Bool.eq_false_iff] <;> intro hk
  · simp only [Site.isKey, Bool.and_eq_true] at hk
    exact hnot (untouched_of_entryStarts hk.2)
  · simp only [Site.isAttribute, Bool.and_eq_true] at hk
    exact hnot (untouched_of_attributeStarts hk.1.2)

/-- A word of which a regular expression has taken letters: the place is the rest of the name. -/
structure Site.IsRest (s : Site) (name : List Char) : Prop where
  name : s.name = String.ofList (name.dropWhile isFlag)
  inCode : s.inCode = true
  isKey : s.isKey = false
  isAttribute : s.isAttribute = false

theorem eq_of_place_code {d : List Char} {b : List Mark} {after : List Char} {s : Site}
    (h : .place s ∈ Piece.fragments b after ⟨.code, d⟩) : s = ⟨String.ofList d, true, b, after⟩ := by
  unfold Piece.fragments at h
  split at h
  · split at h
    · simp at h
    · simpa using h
  · simp [Piece.content?] at h

section

variable {p : Piece} {b : List Mark} {qs : List Piece} {f d : List Char} {s : Site}

/-- What stands in front of a place is the same up to letters, whichever of the two tokens the
letters are part of. -/
theorem faded_taken (p : Piece) (hf : ∀ c ∈ f, isFlag c = true) (b : List Mark) :
    Faded ((Piece.marks ⟨p.kind, p.text ++ f⟩).reverse ++ b)
      ((Piece.marks ⟨.code, f⟩).reverse ++ (p.marks.reverse ++ b)) := by
  have hmarks : Piece.marks ⟨p.kind, p.text ++ f⟩ = p.marks ++ Piece.marks ⟨p.kind, f⟩ :=
    List.map_append
  rw [hmarks, List.reverse_append, List.append_assoc]
  exact (Faded.marks hf _ _).append (.refl _)

/-- Behind letters that a regular expression has taken no name is a key or an attribute. -/
theorem isRest_of_taken (hf : ∀ c ∈ f, isFlag c = true) (hne : f ≠ [])
    (hs : s = ⟨String.ofList d, true, (Piece.marks ⟨p.kind, p.text ++ f⟩).reverse ++ b, textOf qs⟩)
    {w : List Char} (hw : w.dropWhile isFlag = d) : s.IsRest w := by
  obtain ⟨z, hz⟩ : ∃ z, f.getLast? = some z := ⟨_, List.getLast?_eq_some_getLast hne⟩
  have hlast : (p.text ++ f).getLast? = some z := by
    rw [List.getLast?_append_of_ne_nil _ hne, hz]
  have hword : isWord z = true := isWord_of_isFlag (hf z (List.mem_of_getLast? hz))
  subst hs
  obtain ⟨hkey, hattr⟩ := Site.not_key_of_touched
    (s := ⟨String.ofList d, true, (Piece.marks ⟨p.kind, p.text ++ f⟩).reverse ++ b, textOf qs⟩)
    ⟨_, Piece.head?_marks hlast b, .inr hword⟩
  exact ⟨by rw [hw], rfl, hkey, hattr⟩

/-- The places behind letters that a regular expression has taken from the word after it. -/
theorem exists_of_placed_taken (hp : p.isRegex = true) (hf : ∀ c ∈ f, isFlag c = true)
    (hne : f ≠ []) {w : List Char} (hsplit : f ++ d = w) (hdrop : w.dropWhile isFlag = d)
    (hs : .place s ∈ placed b
      (⟨p.kind, p.text ++ f⟩ :: if d = [] then qs else ⟨.code, d⟩ :: qs)) :
    (∃ s', .place s' ∈ placed b (p :: ⟨.code, w⟩ :: qs) ∧ s.Agrees s') ∨ s.IsRest w := by
  have hregex : Piece.isRegex ⟨p.kind, p.text ++ f⟩ = true := by
    simp only [Piece.isRegex, Bool.and_eq_true, beq_iff_eq] at hp ⊢
    exact ⟨hp.1, by rw [List.head?_append, hp.2]; rfl⟩
  have hfade := faded_taken p hf b
  have hword : (Piece.marks ⟨.code, w⟩).reverse =
      (Piece.marks ⟨.code, d⟩).reverse ++ (Piece.marks ⟨.code, f⟩).reverse := by
    rw [← hsplit, ← List.reverse_append]
    exact congrArg List.reverse List.map_append
  have hbehind : ∀ {b' : List Mark}, .place s ∈ placed b' qs →
      Faded b' ((Piece.marks ⟨.code, w⟩).reverse ++ (p.marks.reverse ++ b)) →
      ∃ s', .place s' ∈ placed b (p :: ⟨.code, w⟩ :: qs) ∧ s.Agrees s' := by
    intro b' hs h
    obtain ⟨s', hs', hagrees⟩ := exists_of_placed_faded h hs
    exact ⟨s', List.mem_append_right _ (List.mem_append_right _ hs'), hagrees⟩
  rw [placed, fragments_regex hregex] at hs
  have hs : .place s ∈ placed ((Piece.marks ⟨p.kind, p.text ++ f⟩).reverse ++ b)
      (if d = [] then qs else ⟨.code, d⟩ :: qs) := by simpa using hs
  split at hs
  · next hd =>
    rw [hd] at hword
    refine .inl (hbehind hs ?_)
    rw [hword]
    exact hfade
  · next hd =>
    rcases List.mem_append.1 hs with hs | hs
    · exact .inr (isRest_of_taken hf hne (eq_of_place_code hs) hdrop)
    · refine .inl (hbehind hs ?_)
      rw [hword, List.append_assoc]
      exact (Faded.refl _).append hfade

end

/-- The places behind a regular expression that has taken the letters of a word. -/
theorem exists_of_placed_absorb {p : Piece} (hp : p.isRegex = true) {b : List Mark}
    {ps : List Piece} (hne : ∀ q ∈ ps, q.text ≠ []) {s : Site}
    (hs : .place s ∈ placed b (p.absorb ps)) :
    (∃ s', .place s' ∈ placed b (p :: ps) ∧ s.Agrees s') ∨
      ∃ w qs, ps = ⟨.code, w⟩ :: qs ∧ startsWithLetter w = true ∧ s.IsRest w := by
  rcases ps with _ | ⟨⟨k, w⟩, qs⟩
  · exact .inl ⟨s, hs, .refl s⟩
  by_cases hk : k = .code
  swap
  · rw [Piece.absorb_of_kind hk] at hs
    exact .inl ⟨s, hs, .refl s⟩
  subst hk
  obtain ⟨c, t, hw⟩ := List.exists_cons_of_ne_nil (hne _ (List.mem_cons_self ..))
  change w = c :: t at hw
  cases hletter : startsWithLetter w with
  | false =>
    have hc : isFlag c = false := by simpa [hw, startsWithLetter] using hletter
    rw [hw, Piece.absorb_of_isFlag hc] at hs
    exact .inl ⟨s, by rwa [hw], .refl s⟩
  | true =>
    have hc : isFlag c = true := by simpa [hw, startsWithLetter] using hletter
    have htaken : w.takeWhile isFlag ≠ [] := by simp [hw, hc]
    refine (exists_of_placed_taken hp (fun c hc => List.all_eq_true.1 List.all_takeWhile c hc)
      htaken List.takeWhile_append_dropWhile rfl hs).imp id fun hrest => ?_
    exact ⟨w, qs, rfl, hletter, hrest⟩

/-- The place `s` is what a regular expression has left of the new name of a word, which starts with
a letter where the name before it did not. -/
def LeftOver (ren : Site → String) (before : List Mark) (ps : List Piece) (s : Site) : Prop :=
  ∃ site, .place site ∈ placed before ps ∧
    (site.inCode = true ∧ site.isKey = false ∧ site.isAttribute = false) ∧
      startsWithLetter site.name.toList = false ∧ startsWithLetter (ren site).toList = true ∧
        s.IsRest (ren site).toList

theorem LeftOver.of_agrees {ren : Site → String} {before : List Mark} {ps : List Piece}
    {s s' : Site} (h : LeftOver ren before ps s') (hs : s.Agrees s') : LeftOver ren before ps s := by
  obtain ⟨site, hsite, hcode, hnot, hletter, hrest⟩ := h
  exact ⟨site, hsite, hcode, hnot, hletter, hs.name.trans hrest.name, hs.inCode.trans hrest.inCode,
    hs.isKey.trans hrest.isKey, hs.isAttribute.trans hrest.isAttribute⟩

theorem redrawn_text_ne_nil {L : Bool → Bool → Prop} {ren : Site → String} {before : List Mark}
    {ps : List Piece} (hsafe : Safe ren L before ps) (h : ∀ p ∈ ps, p.text ≠ []) :
    ∀ p ∈ redrawn ren before ps, p.text ≠ [] := by
  induction ps generalizing before with
  | nil => simp [redrawn]
  | cons p ps ih =>
    rw [redrawn, List.forall_mem_cons]
    exact ⟨(redrawn_redraw hsafe.head).text_ne_nil (h p (List.mem_cons_self ..)),
      ih hsafe.tail fun q hq => h q (List.mem_cons_of_mem _ hq)⟩

theorem text_ne_nil_settle {ps : List Piece} (h : ∀ p ∈ ps, p.text ≠ []) :
    ∀ p ∈ settle ps, p.text ≠ [] := by
  induction ps with
  | nil => simp [settle]
  | cons p ps ih =>
    have ih := ih fun q hq => h q (List.mem_cons_of_mem _ hq)
    have hp := h p (List.mem_cons_self ..)
    rw [settle]
    split
    · unfold Piece.absorb
      split
      · next w qs hw =>
        rw [hw, List.forall_mem_cons] at ih
        refine List.forall_mem_cons.2 ⟨by simp [hp], ?_⟩
        split
        · exact ih.2
        · next hd => exact List.forall_mem_cons.2 ⟨hd, ih.2⟩
      · exact List.forall_mem_cons.2 ⟨hp, ih⟩
    · exact List.forall_mem_cons.2 ⟨hp, ih⟩

/-- A word that settled tokens start with is the first of the tokens. -/
theorem head_of_settle {p : Piece} {ps qs : List Piece} {w : List Char}
    (h : settle (p :: ps) = ⟨.code, w⟩ :: qs) : p = ⟨.code, w⟩ := by
  rw [settle] at h
  split at h
  · next hp =>
    have hk : p.kind = .literal := by
      simp only [Piece.isRegex, Bool.and_eq_true, beq_iff_eq] at hp
      exact hp.1
    have hhead : ∀ rs, ∃ t us, p.absorb rs = ⟨p.kind, t⟩ :: us := by
      intro rs
      unfold Piece.absorb
      split
      · exact ⟨_, _, rfl⟩
      · exact ⟨_, _, rfl⟩
    obtain ⟨t, us, ht⟩ := hhead (settle ps)
    rw [ht, hk] at h
    cases h
  · exact (List.cons.inj h).1

/-- **The places of settled tokens** are those of the tokens, and what is left of names. -/
theorem exists_of_placed_settle {L : Bool → Bool → Prop} {ren : Site → String}
    {before b : List Mark} {ps : List Piece} (hcut : WellCut ps) (hsafe : Safe ren L before ps)
    {s : Site} (hs : .place s ∈ placed b (settle (redrawn ren before ps))) :
    (∃ s', .place s' ∈ placed b (redrawn ren before ps) ∧ s.Agrees s') ∨
      LeftOver ren before ps s := by
  induction ps generalizing before b s with
  | nil => simp [redrawn, settle, placed] at hs
  | cons p ps ih =>
    have hbehind : ∀ {s}, .place s ∈ placed b (p.redraw ren before (textOf ps) ::
        settle (redrawn ren (p.marks.reverse ++ before) ps)) →
        (∃ s', .place s' ∈ placed b (redrawn ren before (p :: ps)) ∧ s.Agrees s') ∨
          LeftOver ren before (p :: ps) s := by
      intro s hs
      rcases List.mem_append.1 hs with hs | hs
      · rw [textOf_settle] at hs
        exact .inl ⟨s, List.mem_append_left _ hs, .refl s⟩
      · rcases ih hcut.tail hsafe.tail hs with ⟨s', hs', hagrees⟩ | ⟨site, hsite, h⟩
        · exact .inl ⟨s', List.mem_append_right _ hs', hagrees⟩
        · exact .inr ⟨site, List.mem_append_right _ hsite, h⟩
    rw [redrawn, settle] at hs
    split at hs
    · next hregex =>
      have hne := text_ne_nil_settle (redrawn_text_ne_nil hsafe.tail hcut.tail.text_ne_nil)
      rcases exists_of_placed_absorb hregex hne hs with ⟨s', hs', hagrees⟩ | ⟨w, qs, hw, hlet, hrest⟩
      · rcases hbehind hs' with ⟨s'', hs'', hagrees'⟩ | hleft
        · exact .inl ⟨s'', hs'', hagrees.trans hagrees'⟩
        · exact .inr (hleft.of_agrees hagrees)
      · -- the word behind the expression has got its letter
        rcases ps with _ | ⟨q, ps⟩
        · cases hw
        have hq := head_of_settle hw
        have hregex' : p.isRegex = true := by rwa [isRegex_redraw hregex] at hregex
        have hk : q.kind = .code := congrArg Piece.kind hq
        have htext := congrArg Piece.text hq
        obtain ⟨site, hsite, hcode, hnot, hren⟩ := exists_site_redraw hk
          (head?_textOf_cons (hcut.seam.of_isRegex hregex')) (by rw [htext]; exact hlet)
        rw [htext] at hren
        change w = _ at hren
        rw [hren] at hlet hrest
        obtain ⟨z, hz, hz'⟩ := hcut.endsRegex hregex'
        have hbefore := (place_mem_fragments hsite []).1
        have htests := site.not_key_of_touched
          (by rw [hbefore]; exact ⟨_, Piece.head?_marks hz before, hz'⟩)
        exact .inr ⟨site, List.mem_append_right _ (List.mem_append_left _ hsite), ⟨hcode, htests⟩,
          hnot, hlet, hrest⟩
    · exact hbehind hs

end Renaming.Source
