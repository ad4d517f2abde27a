import Renaming.Proofs.Source.Token

/-!
The places of a source by their positions in bytes. `Occurs` says what a place is in terms of the
pieces of the source: a whole word of a piece of code, or the content of a piece that is a closed
string. The main statement is `occurs_iff`: the places among the fragments of a source are these
places and no others.
-/

namespace Renaming.Source

/-! ### Places by position -/

/-- The characters of pieces, marked. -/
def marksOf (ps : List Piece) : List Mark := ps.flatMap Piece.marks

@[simp] theorem marksOf_nil : marksOf [] = [] := rfl

@[simp] theorem marksOf_cons (p : Piece) (ps : List Piece) :
    marksOf (p :: ps) = p.marks ++ marksOf ps := rfl

theorem marksOf_append (ps qs : List Piece) : marksOf (ps ++ qs) = marksOf ps ++ marksOf qs := by
  simp [marksOf]

theorem map_char_marksOf (ps : List Piece) : (marksOf ps).map Mark.char = textOf ps := by
  induction ps with
  | nil => rfl
  | cons p ps ih => rw [marksOf_cons, List.map_append, ih, p.map_char_marks, textOf_cons]

/-- `w` is a word of `a ++ w ++ b` that is as long as possible. -/
structure WholeWord (a w b : List Char) : Prop where
  ne_nil : w ≠ []
  isWord : ∀ c ∈ w, isWord c = true
  before : ∀ c ∈ a.getLast?, Source.isWord c = false
  after : ∀ c ∈ b.head?, Source.isWord c = false

/-- The bytes from `start` to `stop` of a source are the name of the place `site`. -/
inductive Occurs (source : List Char) : (start stop : Nat) → (site : Site) → Prop
  /-- A whole word of a piece of code; one that starts with a digit is a number and no name. -/
  | word {ps : List Piece} {p : Piece} {qs : List Piece} {a w b : List Char} :
    pieces source = ps ++ p :: qs → p.kind = .code → p.text = a ++ w ++ b → WholeWord a w b →
    (∀ c ∈ w.head?, c.isDigit = false) →
    Occurs source (byteLength (textOf ps ++ a)) (byteLength (textOf ps ++ a ++ w))
      ⟨String.ofList w, true, (marksOf ps ++ Piece.marks ⟨.code, a⟩).reverse, b ++ textOf qs⟩
  /-- The content of a closed string, behind its opening quote. -/
  | content {ps : List Piece} {p : Piece} {qs : List Piece} {m : List Char} :
    pieces source = ps ++ p :: qs → p.content? = some m →
    Occurs source (byteLength (textOf ps) + 1) (byteLength (textOf ps) + 1 + byteLength m)
      ⟨String.ofList m, false, (marksOf ps).reverse, textOf qs⟩

/-! ### Places among the tokens -/

/-- The place `site` is in the token `p`, behind the text `lead` of it. -/
inductive Piece.Holds (p : Piece) (before : List Mark) (after : List Char) :
    (lead : List Char) → (site : Site) → Prop
  | word : p.isWord = true → (∀ c ∈ p.text.head?, c.isDigit = false) → p.text ≠ [] →
    Holds p before after [] ⟨String.ofList p.text, true, before, after⟩
  | content {q : Char} {m : List Char} : isQuote q = true → p.text = q :: (m ++ [q]) →
    p.content? = some m → Holds p before after [q] ⟨String.ofList m, false, before, after⟩

theorem Piece.isWord_eq_false_of_content? {p : Piece} {m : List Char} (h : p.content? = some m) :
    p.isWord = false := by
  unfold Piece.content? at h
  split at h
  · next hk => simp [Piece.isWord, hk]
  · simp at h

theorem Piece.text_of_content? {p : Piece} {m : List Char} (h : p.content? = some m) :
    p.kind = .literal ∧ ∃ q, isQuote q = true ∧ p.text = q :: (m ++ [q]) := by
  unfold Piece.content? at h
  split at h
  · next hk => exact ⟨hk, eq_cons_append_of_inner? h⟩
  · simp at h

theorem byteLength_quote {q : Char} (h : isQuote q = true) : byteLength [q] = 1 := by
  simp only [isQuote, Bool.or_eq_true, beq_iff_eq] at h
  rcases h with (rfl | rfl) | rfl <;> decide

theorem Piece.holds_of_fragments {p : Piece} {before : List Mark} {after : List Char} {site : Site}
    {fs gs : List Fragment} (h : p.fragments before after = fs ++ .place site :: gs)
    (hne : p.text ≠ []) : p.Holds before after (fs.flatMap Fragment.text) site := by
  unfold Piece.fragments at h
  split at h
  · next hw =>
    split at h
    · rcases fs with _ | ⟨f, fs⟩ <;> simp at h
    · next hd =>
      rcases fs with _ | ⟨f, fs⟩
      · simp only [List.nil_append, List.cons.injEq, Fragment.place.injEq] at h
        rw [← h.1]
        refine .word hw ?_ hne
        intro c hc
        rw [Option.mem_def.1 hc] at hd
        simpa using hd
      · simp at h
  · split at h
    · next m hm =>
      obtain ⟨-, q, hq, ht⟩ := Piece.text_of_content? hm
      rcases fs with _ | ⟨f, _ | ⟨f', _ | ⟨f'', fs⟩⟩⟩
      · simp at h
      · simp only [List.cons_append, List.nil_append, List.cons.injEq, Fragment.place.injEq, ht] at h
        rw [← h.1, ← h.2.1]
        exact .content hq ht hm
      · simp at h
      · simp at h
    · rcases fs with _ | ⟨f, fs⟩ <;> simp at h

theorem Piece.Holds.fragments {p : Piece} {before : List Mark} {after lead : List Char} {site : Site}
    (h : p.Holds before after lead site) : ∃ fs gs,
      p.fragments before after = fs ++ .place site :: gs ∧ fs.flatMap Fragment.text = lead := by
  cases h with
  | word hw hd hne =>
    obtain ⟨c, r, ht⟩ := List.exists_cons_of_ne_nil hne
    have hc : c.isDigit = false := hd c (by rw [ht]; rfl)
    exact ⟨[], [], by simp [Piece.fragments, hw, ht, hc], rfl⟩
  | @content q m hq ht hm =>
    have hw := Piece.isWord_eq_false_of_content? hm
    exact ⟨[.kept [q]], [.kept [q]], by simp [Piece.fragments, hw, hm, ht], rfl⟩

/-- Where the place `site` is among tokens that follow the marks `before`, behind the text
`lead`. -/
def Held (before : List Mark) (ps : List Piece) (lead : List Char) (site : Site) : Prop :=
  ∃ xs p ys t, ps = xs ++ p :: ys ∧ p.Holds ((marksOf xs).reverse ++ before) (textOf ys) t site ∧
    lead = textOf xs ++ t

theorem flatMap_text_fragments_piece (p : Piece) (before : List Mark) (after : List Char) :
    (p.fragments before after).flatMap Fragment.text = p.text := by
  unfold Piece.fragments
  split
  · split <;> simp [Fragment.text]
  · split
    · next m hm =>
      obtain ⟨-, q, -, ht⟩ := Piece.text_of_content? hm
      simp [ht, Fragment.text]
    · simp [Fragment.text]

theorem held_of_placed {before : List Mark} {ps : List Piece} {site : Site} {fs gs : List Fragment}
    (hne : ∀ p ∈ ps, p.text ≠ []) (h : placed before ps = fs ++ .place site :: gs) :
    Held before ps (fs.flatMap Fragment.text) site := by
  induction ps generalizing before fs with
  | nil => simp [placed] at h
  | cons p ps ih =>
    have htext := flatMap_text_fragments_piece p before (textOf ps)
    rw [placed, List.append_eq_append_iff] at h
    rcases h with ⟨u, rfl, hu⟩ | ⟨u, hu, hrest⟩
    · -- the place is behind the first token
      obtain ⟨xs, q, ys, t, rfl, hq, ht⟩ :=
        ih (fun q hq => hne q (List.mem_cons_of_mem _ hq)) hu
      refine ⟨p :: xs, q, ys, t, rfl, ?_, ?_⟩
      · simpa using hq
      · rw [List.flatMap_append, htext, ht, textOf_cons, List.append_assoc]
    · rcases u with _ | ⟨f, u⟩
      · obtain ⟨xs, q, ys, t, rfl, hq, ht⟩ :=
          ih (fun q hq => hne q (List.mem_cons_of_mem _ hq)) (hrest.symm.trans (List.nil_append _).symm)
        rw [List.append_nil] at hu
        refine ⟨p :: xs, q, ys, t, rfl, by simpa using hq, ?_⟩
        rw [← hu, htext, textOf_cons, List.append_assoc, ← ht]
        simp
      · -- it is in the first token
        rw [List.cons_append, List.cons.injEq] at hrest
        rw [← hrest.1] at hu
        exact ⟨[], p, ps, _, rfl, Piece.holds_of_fragments hu (hne p (List.mem_cons_self ..)), rfl⟩

theorem placed_of_held {before : List Mark} {ps : List Piece} {lead : List Char} {site : Site}
    (h : Held before ps lead site) :
    ∃ fs gs, placed before ps = fs ++ .place site :: gs ∧ fs.flatMap Fragment.text = lead := by
  obtain ⟨xs, p, ys, t, rfl, hp, rfl⟩ := h
  induction xs generalizing before with
  | nil =>
    obtain ⟨fs, gs, hf, ht⟩ := hp.fragments
    rw [marksOf_nil, List.reverse_nil, List.nil_append] at hf
    refine ⟨fs, gs ++ placed (p.marks.reverse ++ before) ys, ?_, ht⟩
    rw [List.nil_append, placed, hf, List.append_assoc, List.cons_append]
  | cons x xs ih =>
    have hp' : p.Holds ((marksOf xs).reverse ++ (x.marks.reverse ++ before)) (textOf ys) t site := by
      simpa using hp
    obtain ⟨fs, gs, hf, ht⟩ := ih hp'
    refine ⟨x.fragments before (textOf (xs ++ p :: ys)) ++ fs, gs, ?_, ?_⟩
    · rw [List.cons_append, placed, hf, List.append_assoc]
    · rw [List.flatMap_append, flatMap_text_fragments_piece, ht, textOf_cons, List.append_assoc]

/-! ### Joined tokens -/

theorem textOf_merge (p : Piece) (ps : List Piece) : textOf (p.merge ps) = p.text ++ textOf ps := by
  cases ps with
  | nil => rfl
  | cons q qs =>
    rw [Piece.merge]
    split <;> simp

theorem textOf_mergeAll (ps : List Piece) : textOf (mergeAll ps) = textOf ps := by
  induction ps with
  | nil => rfl
  | cons p ps ih => rw [mergeAll, List.foldr_cons, textOf_merge, textOf_cons, ← ih]; rfl

/-- A token is joined to the piece behind it, when both are code, or stays a piece. -/
theorem mergeAll_cons (p : Piece) (ps : List Piece) :
    (p.kind = .code ∧ ∃ q qs, mergeAll ps = q :: qs ∧ q.kind = .code ∧
      mergeAll (p :: ps) = ⟨.code, p.text ++ q.text⟩ :: qs) ∨
    mergeAll (p :: ps) = p :: mergeAll ps := by
  change (_ ∧ ∃ q qs, _ ∧ _ ∧ p.merge (mergeAll ps) = _) ∨ p.merge (mergeAll ps) = _
  cases h : mergeAll ps with
  | nil => exact .inr rfl
  | cons q qs =>
    by_cases hk : p.kind = .code ∧ q.kind = .code
    · exact .inl ⟨hk.1, q, qs, rfl, hk.2, if_pos hk⟩
    · exact .inr (if_neg hk)

/-! ### Whole words -/

theorem WellCut.text_ne_nil {ps : List Piece} (h : WellCut ps) : ∀ p ∈ ps, p.text ≠ [] := by
  induction h with
  | nil => simp
  | word hne _ _ _ ih => exact List.forall_mem_cons.2 ⟨hne, ih⟩
  | mark _ _ ih => exact List.forall_mem_cons.2 ⟨by simp, ih⟩
  | other _ hne _ _ _ ih => exact List.forall_mem_cons.2 ⟨hne, ih⟩

theorem WellCut.tail {p : Piece} {ps : List Piece} (h : WellCut (p :: ps)) : WellCut ps := by
  cases h <;> assumption

theorem WellCut.of_append {xs ps : List Piece} (h : WellCut (xs ++ ps)) : WellCut ps := by
  induction xs with
  | nil => exact h
  | cons x xs ih => exact ih h.tail

/-- A word that is followed by no more of it is where the text stops being a word. -/
theorem word_append_inj {v w x b : List Char} (hv : ∀ c ∈ v, isWord c = true)
    (hx : ∀ c ∈ x.head?, isWord c = false) (hw : ∀ c ∈ w, isWord c = true)
    (hb : ∀ c ∈ b.head?, isWord c = false) (h : v ++ x = w ++ b) : v = w ∧ x = b := by
  have htake : ∀ {u y : List Char}, (∀ c ∈ u, isWord c = true) →
      (∀ c ∈ y.head?, isWord c = false) → (u ++ y).takeWhile isWord = u := by
    intro u y hu hy
    rw [List.takeWhile_append_of_pos hu]
    cases y with
    | nil => simp
    | cons d y => simp [hy d rfl]
  have hvw : v = w := by rw [← htake hv hx, h, htake hw hb]
  subst hvw
  exact ⟨rfl, List.append_cancel_left h⟩

/-- A word in the text of a token and of code behind it is the token, or it is behind the token. -/
theorem WellCut.word_cases {p : Piece} {ps : List Piece} (h : WellCut (p :: ps))
    (hk : p.kind = .code) {x y a w b : List Char} (hx : textOf ps = x ++ y)
    (hw : WholeWord a w b) (ht : p.text ++ x = a ++ w ++ b) :
    (a = [] ∧ p.text = w ∧ x = b) ∨
      ∃ a', a = p.text ++ a' ∧ x = a' ++ w ++ b ∧ WholeWord a' w b := by
  have hlast : ∀ a' : List Char, a = p.text ++ a' → ∀ c ∈ a'.getLast?, isWord c = false := by
    rintro a' rfl c hc
    refine hw.before c ?_
    rw [List.getLast?_append, Option.mem_def.1 hc]
    rfl
  rw [List.append_assoc, List.append_eq_append_iff] at ht
  rcases ht with ⟨a', ha, hx'⟩ | ⟨t, hp, ht⟩
  · refine .inr ⟨a', ha, by rw [hx', List.append_assoc], hw.ne_nil, hw.isWord, hlast a' ha, hw.after⟩
  · cases h with
    | other hk' => exact absurd hk hk'
    | @mark c _ hc =>
      rcases a with _ | ⟨d, a⟩
      · -- the word would start with the character of the token, which is none of a word
        obtain ⟨d, w', rfl⟩ := List.exists_cons_of_ne_nil hw.ne_nil
        have hd := hw.isWord d (List.mem_cons_self ..)
        simp only [List.nil_append] at hp
        subst hp
        simp only [List.cons_append, List.nil_append, List.cons.injEq] at ht
        rw [ht.1, hc] at hd
        cases hd
      · simp only [List.cons_append, List.cons.injEq, List.nil_eq, List.append_eq_nil_iff] at hp
        obtain ⟨rfl, rfl, rfl⟩ := hp
        refine .inr ⟨[], rfl, ?_, hw.ne_nil, hw.isWord, by simp, hw.after⟩
        simpa using ht.symm
    | @word v _ hne hv hnext =>
      rcases List.eq_nil_or_concat a with rfl | ⟨a, d, rfl⟩
      · simp only [List.nil_append] at hp
        subst hp
        have hx0 : ∀ c ∈ x.head?, isWord c = false := by
          intro c hc
          refine hnext c ?_
          rw [hx, List.head?_append, Option.mem_def.1 hc]
          rfl
        obtain ⟨h1, h2⟩ := word_append_inj hv hx0 hw.isWord hw.after ht.symm
        exact .inl ⟨rfl, h1, h2⟩
      · -- the character in front of the word would be part of the token's word
        have h1 := hw.before d (by simp)
        have h2 := hv d (by simp only at hp; simp [hp])
        rw [h1] at h2
        cases h2

/-- The text `a` is the start and `b` the end of a piece of code around one of its words; around
any other token there is nothing. -/
def Around (k : Kind) (a w b : List Char) : Prop :=
  if k = .code then WholeWord a w b else a = [] ∧ b = []

theorem around_code {a w b : List Char} : Around .code a w b ↔ WholeWord a w b := by
  simp [Around]

theorem around_of_ne {k : Kind} {a w b : List Char} (h : k ≠ .code) :
    Around k a w b ↔ a = [] ∧ b = [] := by
  simp [Around, h]

/-- A token that is a word of the code is a whole word. -/
theorem WellCut.wholeWord {p : Piece} {ps : List Piece} (h : WellCut (p :: ps))
    (hk : p.kind = .code) (hp : p.isWord = true) {b r : List Char} (hps : textOf ps = b ++ r) :
    WholeWord [] p.text b := by
  cases h with
  | other hk' => exact absurd hk hk'
  | mark hc => simp [Piece.isWord, hc] at hp
  | word hne hw hnext =>
    refine ⟨hne, hw, by simp, fun c hc => hnext c ?_⟩
    rw [hps, List.head?_append, Option.mem_def.1 hc]
    rfl

/-- A token of code in front of a whole word is not part of the word. -/
theorem WellCut.wholeWord_append {p : Piece} {ps : List Piece} (h : WellCut (p :: ps))
    (hk : p.kind = .code) {a w b r : List Char} (hps : textOf ps = a ++ w ++ b ++ r)
    (hw : WholeWord a w b) : WholeWord (p.text ++ a) w b := by
  refine ⟨hw.ne_nil, hw.isWord, fun c hc => ?_, hw.after⟩
  rcases List.eq_nil_or_concat a with rfl | ⟨t, d, rfl⟩
  · rw [List.append_nil] at hc
    cases h with
    | other hk' => exact absurd hk hk'
    | mark hd =>
      obtain rfl : _ = c := by simpa using hc
      exact hd
    | word _ _ hnext =>
      obtain ⟨d, u, rfl⟩ := List.exists_cons_of_ne_nil hw.ne_nil
      have hd := hnext d (by rw [hps]; rfl)
      rw [hw.isWord d (List.mem_cons_self ..)] at hd
      cases hd
  · rw [List.concat_eq_append, ← List.append_assoc, List.getLast?_concat] at hc
    exact hw.before c (by rwa [List.concat_eq_append, List.getLast?_concat])

/-- The piece that a token is part of. -/
theorem exists_piece {xs ys : List Piece} {p : Piece} (h : WellCut (xs ++ p :: ys))
    (hp : p.kind = .code → p.isWord = true) : ∃ us q vs a b,
      mergeAll (xs ++ p :: ys) = us ++ q :: vs ∧ q.kind = p.kind ∧ q.text = a ++ p.text ++ b ∧
      Around p.kind a p.text b ∧ marksOf us ++ Piece.marks ⟨.code, a⟩ = marksOf xs ∧
      b ++ textOf vs = textOf ys := by
  induction xs with
  | nil =>
    have htext := textOf_mergeAll ys
    rw [List.nil_append] at h ⊢
    rcases mergeAll_cons p ys with ⟨hk, q, qs, hm, -, hj⟩ | hj
    · rw [hm] at htext
      refine ⟨[], _, qs, [], q.text, hj, hk.symm, rfl, ?_, rfl, htext⟩
      rw [hk, around_code]
      exact h.wholeWord hk (hp hk) htext.symm
    · refine ⟨[], p, mergeAll ys, [], [], hj, rfl, by simp, ?_, rfl, htext⟩
      by_cases hk : p.kind = .code
      · rw [hk, around_code]
        exact h.wholeWord hk (hp hk) (List.append_nil _).symm
      · exact (around_of_ne hk).2 ⟨rfl, rfl⟩
  | cons x xs ih =>
    obtain ⟨us, q, vs, a, b, hm, hqk, hqt, har, hmarks, htext⟩ := ih h.tail
    rw [List.cons_append] at h ⊢
    rcases mergeAll_cons x (xs ++ p :: ys) with ⟨hk, q', qs, hm', hq', hj⟩ | hj
    · rw [hm] at hm'
      rcases us with _ | ⟨u, us⟩
      · -- the piece of the token grows to the left
        obtain ⟨rfl, rfl⟩ := List.cons.inj hm'
        have hpk : p.kind = .code := hqk.symm.trans hq'
        have hps : textOf (xs ++ p :: ys) = a ++ p.text ++ b ++ textOf vs := by
          rw [← textOf_mergeAll, hm, List.nil_append, textOf_cons, hqt]
        rw [hpk, around_code] at har
        refine ⟨[], _, vs, x.text ++ a, b, hj, hpk.symm, by simp [hqt], ?_, ?_, htext⟩
        · rw [hpk, around_code]
          exact h.wholeWord_append hk hps har
        · rw [marksOf_cons x xs, ← hmarks]
          simp [Piece.marks, hk]
      · rw [List.cons_append, List.cons.injEq] at hm'
        obtain ⟨rfl, rfl⟩ := hm'
        refine ⟨_ :: us, q, vs, a, b, hj, hqk, hqt, har, ?_, htext⟩
        rw [marksOf_cons x xs, ← hmarks]
        simp [Piece.marks, hk, hq']
    · refine ⟨x :: us, q, vs, a, b, by rw [hj, hm]; rfl, hqk, hqt, har, ?_, htext⟩
      rw [marksOf_cons, List.append_assoc, hmarks, marksOf_cons]

/-- A token that is no code is a piece. -/
theorem exists_piece_of_ne {xs ys : List Piece} {p : Piece} (h : WellCut (xs ++ p :: ys))
    (hk : p.kind ≠ .code) : ∃ us vs, mergeAll (xs ++ p :: ys) = us ++ p :: vs ∧
      marksOf us = marksOf xs ∧ textOf vs = textOf ys := by
  obtain ⟨us, q, vs, a, b, hm, hqk, hqt, har, hmarks, hrest⟩ :=
    exists_piece h fun hk' => absurd hk' hk
  obtain ⟨rfl, rfl⟩ := (around_of_ne hk).1 har
  obtain rfl : q = p := by
    cases q; cases p
    simp_all
  exact ⟨us, vs, hm, by simpa [Piece.marks] using hmarks, hrest⟩

/-- The token that a word of a piece is, or a piece that is no code. -/
theorem exists_token {ps us vs : List Piece} {q : Piece} {a w b : List Char} (h : WellCut ps)
    (hm : mergeAll ps = us ++ q :: vs) (ht : q.text = a ++ w ++ b) (har : Around q.kind a w b) :
    ∃ xs ys, ps = xs ++ ⟨q.kind, w⟩ :: ys ∧ marksOf us ++ Piece.marks ⟨.code, a⟩ = marksOf xs ∧
      b ++ textOf vs = textOf ys := by
  induction ps generalizing us q a with
  | nil => simp [mergeAll] at hm
  | cons p ps ih =>
    have htext := textOf_mergeAll ps
    rcases mergeAll_cons p ps with ⟨hk, q', qs, hm', hq', hj⟩ | hj
    · rw [hj] at hm
      rw [hm'] at htext
      rcases us with _ | ⟨u, us⟩
      · obtain ⟨rfl, rfl⟩ := List.cons.inj hm
        rw [around_code] at har
        rcases h.word_cases hk htext.symm har ht with ⟨rfl, hw, rfl⟩ | ⟨a', rfl, hx, har'⟩
        · exact ⟨[], ps, by rw [← hw, ← hk]; rfl, rfl, htext⟩
        · obtain ⟨xs, ys, hps, hmarks, hrest⟩ := ih h.tail (hm'.trans (List.nil_append _).symm) hx
            (by rw [hq', around_code]; exact har')
          refine ⟨p :: xs, ys, by rw [hps, hq']; rfl, ?_, hrest⟩
          rw [marksOf_cons p xs, ← hmarks]
          simp [Piece.marks, hk]
      · rw [List.cons_append, List.cons.injEq] at hm
        obtain ⟨rfl, rfl⟩ := hm
        obtain ⟨xs, ys, hps, hmarks, hrest⟩ := ih h.tail (hm'.trans (List.cons_append ..).symm) ht har
        refine ⟨p :: xs, ys, by rw [hps]; rfl, ?_, hrest⟩
        rw [marksOf_cons p xs, ← hmarks]
        simp [Piece.marks, hk, hq']
    · rw [hj] at hm
      rcases us with _ | ⟨u, us⟩
      · obtain ⟨rfl, rfl⟩ := List.cons.inj hm
        have hab : a = [] ∧ b = [] := by
          by_cases hk : p.kind = .code
          · rw [hk, around_code] at har
            rcases h.word_cases (x := []) hk rfl har (by simpa using ht) with
              ⟨rfl, -, rfl⟩ | ⟨a', -, hx, har'⟩
            · exact ⟨rfl, rfl⟩
            · exact absurd (List.append_eq_nil_iff.1 (List.append_eq_nil_iff.1 hx.symm).1).2 har'.ne_nil
          · exact (around_of_ne hk).1 har
        obtain ⟨rfl, rfl⟩ := hab
        refine ⟨[], ps, ?_, rfl, htext⟩
        rw [show w = p.text by simpa using ht.symm]
        rfl
      · rw [List.cons_append, List.cons.injEq] at hm
        obtain ⟨rfl, hm⟩ := hm
        obtain ⟨xs, ys, hps, hmarks, hrest⟩ := ih h.tail hm ht har
        refine ⟨p :: xs, ys, by rw [hps]; rfl, ?_, hrest⟩
        rw [marksOf_cons, List.append_assoc, hmarks, marksOf_cons]

/-! ### The places of a source -/

theorem textOf_eq_of_marksOf {us xs : List Piece} (h : marksOf us = marksOf xs) :
    textOf us = textOf xs := by
  rw [← map_char_marksOf, h, map_char_marksOf]

theorem textOf_eq_of_marks {us xs : List Piece} {a : List Char}
    (h : marksOf us ++ Piece.marks ⟨.code, a⟩ = marksOf xs) : textOf us ++ a = textOf xs := by
  have := congrArg (List.map Mark.char) h
  rwa [List.map_append, map_char_marksOf, map_char_marksOf, Piece.map_char_marks] at this

/-- **The places of a source.** The places among its fragments are the whole words of its code and
the contents of its closed strings. -/
theorem occurs_iff {source : List Char} {start stop : Nat} {site : Site} :
    Occurs source start stop site ↔ ∃ fs gs, fragmentsOf source = fs ++ .place site :: gs ∧
      start = byteLength (fs.flatMap Fragment.text) ∧
      stop = start + byteLength site.name.toList := by
  have hcut : WellCut (tokensOf source) := wellCut_tokens .start source
  constructor
  · intro h
    cases h with
    | @word us q vs a w b hp hk ht hw hd =>
      rw [pieces_eq_mergeAll] at hp
      obtain ⟨xs, ys, hps, hmarks, hrest⟩ :=
        exists_token hcut hp ht (by rw [hk, around_code]; exact hw)
      obtain ⟨fs, gs, hf, hlead⟩ := @placed_of_held [] _ _ _
        ⟨xs, _, ys, [], hps, .word (by rw [hk]; exact isWord_piece hw.isWord) hd hw.ne_nil, rfl⟩
      refine ⟨fs, gs, ?_, ?_, ?_⟩
      · rw [fragmentsOf_eq_placed, hf, hmarks, hrest, List.append_nil]
      · rw [hlead, textOf_eq_of_marks hmarks, List.append_nil]
      · rw [byteLength_append, String.toList_ofList]
    | @content us p vs m hp hm =>
      obtain ⟨hk, q, hq, ht⟩ := Piece.text_of_content? hm
      rw [pieces_eq_mergeAll] at hp
      obtain ⟨xs, ys, hps, hmarks, hrest⟩ := exists_token (a := []) (w := p.text) (b := []) hcut hp
        (by simp) ((around_of_ne (by simp [hk])).2 ⟨rfl, rfl⟩)
      obtain ⟨fs, gs, hf, hlead⟩ := @placed_of_held [] _ _ _
        ⟨xs, _, ys, [q], hps, .content hq ht hm, rfl⟩
      have hmarks' : marksOf us = marksOf xs := by simpa [Piece.marks] using hmarks
      refine ⟨fs, gs, ?_, ?_, ?_⟩
      · rw [fragmentsOf_eq_placed, hf, hmarks', List.append_nil, ← hrest]
        rfl
      · rw [hlead, byteLength_append, byteLength_quote hq, ← textOf_eq_of_marks hmarks,
          List.append_nil]
      · rw [String.toList_ofList]
  · rintro ⟨fs, gs, hf, rfl, rfl⟩
    rw [fragmentsOf_eq_placed] at hf
    obtain ⟨xs, p, ys, t, hps, hp, hlead⟩ := held_of_placed hcut.text_ne_nil hf
    rw [hps] at hcut
    rw [hlead]
    cases hp with
    | word hw hd hne =>
      have hk : p.kind = .code := by simp_all [Piece.isWord]
      obtain ⟨us, q, vs, a, b, hm, hqk, hqt, har, hmarks, hrest⟩ := exists_piece hcut fun _ => hw
      rw [hk, around_code] at har
      rw [← hps, ← pieces_eq_mergeAll] at hm
      have := Occurs.word hm (hqk.trans hk) hqt har hd
      rw [textOf_eq_of_marks hmarks, hmarks, hrest, byteLength_append (textOf xs)] at this
      rwa [String.toList_ofList, List.append_nil, List.append_nil]
    | @content q m hq ht hm' =>
      have hk : p.kind ≠ .code := by simp [(Piece.text_of_content? hm').1]
      obtain ⟨us, vs, hm, hmarks, hrest⟩ := exists_piece_of_ne hcut hk
      rw [← hps, ← pieces_eq_mergeAll] at hm
      have := Occurs.content hm hm'
      rw [hmarks, textOf_eq_of_marksOf hmarks, hrest] at this
      rwa [byteLength_append, byteLength_quote hq, String.toList_ofList, List.append_nil]

theorem occurs_of_mem {source : List Char} {site : Site} (h : .place site ∈ fragmentsOf source) :
    ∃ start stop, Occurs source start stop site := by
  obtain ⟨fs, gs, hf⟩ := List.append_of_mem h
  exact ⟨_, _, occurs_iff.2 ⟨fs, gs, hf, rfl, rfl⟩⟩

theorem mem_of_occurs {source : List Char} {start stop : Nat} {site : Site}
    (h : Occurs source start stop site) : .place site ∈ fragmentsOf source := by
  obtain ⟨fs, gs, hf, -⟩ := occurs_iff.1 h
  rw [hf]
  simp

end Renaming.Source
