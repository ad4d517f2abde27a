import Renaming.Proofs.Source.Behind
import Renaming.Proofs.Source.Uncomment

/-!
What surrounds a place in a source without its comments. `Bared` relates what precedes a place with
and without comments, and `Hushed` what follows it. The tests of a place agree on them where no
comment stands next to it, with nothing but blanks between: `Fronted` and `Followed` say that one
does.

Brackets are the same in any case (`Bared.innermost`), since only those of the code are looked at.
-/

namespace Renaming.Source

open Renaming.Text (isBlank)

/-! ### Comments next to a place -/

/-- Blanks, and a text in front of them that ends as `ends` says. -/
def Fronted (ends : List Mark → Prop) (before : List Mark) : Prop :=
  ∃ u r, (∀ m ∈ u, isBlank m.char = true) ∧ before = u ++ r ∧ ends r

/-- Blanks, and a text behind them that starts as `starts` says. -/
def Followed (starts : List Char → Prop) (after : List Char) : Prop :=
  ∃ u r, (∀ c ∈ u, isBlank c = true) ∧ after = u ++ r ∧ starts r

theorem Fronted.cons {ends : List Mark → Prop} {m : Mark} {ms : List Mark} (h : Fronted ends ms)
    (hm : isBlank m.char = true) : Fronted ends (m :: ms) := by
  obtain ⟨u, r, hu, rfl, hr⟩ := h
  exact ⟨m :: u, r, List.forall_mem_cons.2 ⟨hm, hu⟩, rfl, hr⟩

theorem Followed.cons {starts : List Char → Prop} {c : Char} {y : List Char}
    (h : Followed starts y) (hc : isBlank c = true) : Followed starts (c :: y) := by
  obtain ⟨u, r, hu, rfl, hr⟩ := h
  exact ⟨c :: u, r, List.forall_mem_cons.2 ⟨hc, hu⟩, rfl, hr⟩

/-! ### What precedes a place -/

/-- Two texts in front of a place, read from the place backwards. The second one has spaces for the
comments of the first, which end as `ends` says. The text `after` follows the first of them. -/
inductive Bared (ends : List Mark → Prop) : (after : List Char) → List Mark → List Mark → Prop
  | nil (after : List Char) : Bared ends after [] []
  | same {after : List Char} (m : Mark) {ms ms' : List Mark} :
    Bared ends (m.char :: after) ms ms' → Bared ends after (m :: ms) (m :: ms')
  | comment {after t bs : List Char} {ms ms' : List Mark} : CommentCut t after → bs ≠ [] →
    (∀ c ∈ bs, isBlank c = true) → ends ((Piece.marks ⟨.comment, t⟩).reverse ++ ms) →
    Bared ends (t ++ after) ms ms' →
    Bared ends after ((Piece.marks ⟨.comment, t⟩).reverse ++ ms)
      ((Piece.marks ⟨.code, bs⟩).reverse ++ ms')

/-- Whether the name of a tag can start with a character. -/
def startsTag (next : Option Char) : Bool :=
  match next with
  | none => false
  | some c => c.isAlpha || c == '_' || c == '$'

theorem opensTag_eq_false {next : Option Char} (h : startsTag next = false) (ms : List Mark) :
    opensTag next ms = false := by
  change (startsTag next && _) = false
  rw [h, Bool.false_and]

theorem startsTag_of_isBlank {c : Char} (h : isBlank c = true) : startsTag (some c) = false := by
  simp only [isBlank, Bool.or_eq_true, beq_iff_eq] at h
  rcases h with (((rfl | rfl) | rfl) | rfl) | rfl <;> rfl

theorem not_mem_tagMarks_of_isBlank {c : Char} (h : isBlank c = true) : c ∉ Behind.tagMarks := by
  simp only [isBlank, Bool.or_eq_true, beq_iff_eq] at h
  rcases h with (((rfl | rfl) | rfl) | rfl) | rfl <;> decide

namespace Bared

variable {ends : List Mark → Prop} {after : List Char} {ms ms' : List Mark}

theorem marks (k : Kind) (t : List Char) (h : Bared ends (t ++ after) ms ms') :
    Bared ends after ((Piece.marks ⟨k, t⟩).reverse ++ ms) ((Piece.marks ⟨k, t⟩).reverse ++ ms') := by
  induction t generalizing ms ms' with
  | nil => exact h
  | cons c t ih =>
    rw [marks_cons, marks_cons]
    exact ih (.same ⟨c, k = .code⟩ h)

/-- **Brackets** are open in both texts or in neither. -/
theorem innermost (h : Bared ends after ms ms') (d : Nat) : innermost d ms = innermost d ms' := by
  induction h generalizing d with
  | nil => rfl
  | same m _ ih => simp only [Source.innermost, ih]
  | @comment after t bs ms ms' _ _ hbs _ _ ih =>
    have hblank : ∀ m ∈ (Piece.marks ⟨.code, bs⟩).reverse, m.inCode = true →
        isCloser m.char = false ∧ isOpener m.char = false := by
      intro m hm _
      rw [List.mem_reverse, Piece.marks, List.mem_map] at hm
      obtain ⟨c, hc, rfl⟩ := hm
      have hb := hbs c hc
      simp only [isBlank, Bool.or_eq_true, beq_iff_eq] at hb
      rcases hb with (((rfl | rfl) | rfl) | rfl) | rfl <;> exact ⟨rfl, rfl⟩
    rw [Behind.innermost_of_ne (by decide), Behind.innermost_append hblank, ih]

/-- A word that goes on behind the place is the same in both texts. -/
theorem run_eq (h : Bared ends after ms ms') (ha : ∃ c ∈ after.head?, isWord c = true) :
    (ms.map Mark.char).takeWhile isWord = (ms'.map Mark.char).takeWhile isWord := by
  induction h with
  | nil => rfl
  | same m _ ih =>
    rw [List.map_cons, List.map_cons, List.takeWhile_cons, List.takeWhile_cons]
    split
    · next hm => rw [ih ⟨m.char, rfl, hm⟩]
    · rfl
  | @comment after t bs ms ms' hcut hne hbs _ _ ih =>
    -- a word stands behind a slash in the one text and behind a space in the other
    obtain ⟨c, hc, hw⟩ := ha
    have hlast := hcut.getLast? hc (by rintro rfl; cases hw)
    rw [← List.head?_reverse, List.head?_eq_some_iff] at hlast
    obtain ⟨v, hv⟩ := hlast
    obtain ⟨b, u, hu⟩ := List.exists_cons_of_ne_nil (mt List.reverse_eq_nil_iff.1 hne)
    have hb : ¬ isWord b = true := by
      rw [isWord_of_isBlank (hbs b (by rw [← List.mem_reverse, hu]; exact List.mem_cons_self ..))]
      decide
    rw [List.map_append, List.map_append, List.map_reverse, List.map_reverse, Piece.map_char_marks,
      Piece.map_char_marks, hv, hu, List.cons_append, List.cons_append,
      List.takeWhile_cons_of_neg (by decide), List.takeWhile_cons_of_neg hb]

/-- **The nearest character** in front of a place is the same without comments when no comment is
nearer, and so is the word that ends in it. -/
theorem nearest (h : Bared ends after ms ms') (hf : ¬ Fronted ends ms) :
    (skipBlankMarks ms = [] ∧ skipBlankMarks ms' = []) ∨
      ∃ m t t', skipBlankMarks ms = m :: t ∧ skipBlankMarks ms' = m :: t' ∧
        lastWord isWord ((m :: t).map Mark.char) = lastWord isWord ((m :: t').map Mark.char) := by
  induction h with
  | nil => exact .inl ⟨rfl, rfl⟩
  | @same after m ms ms' h ih =>
    by_cases hb : isBlank m.char = true
    · rw [skipBlankMarks_of_isBlank hb, skipBlankMarks_of_isBlank hb]
      exact ih fun hf' => hf (hf'.cons hb)
    · rw [Bool.not_eq_true] at hb
      rw [skipBlankMarks_of_not_isBlank hb, skipBlankMarks_of_not_isBlank hb]
      refine .inr ⟨m, ms, ms', rfl, rfl, ?_⟩
      rw [lastWord, lastWord, List.map_cons, List.map_cons, List.takeWhile_cons,
        List.takeWhile_cons]
      split
      · next hm => rw [h.run_eq ⟨m.char, rfl, hm⟩]
      · rfl
  | comment _ _ _ hends => exact absurd ⟨[], _, by simp, rfl, hends⟩ hf

/-- **An entry of an object** starts behind both texts or behind neither. -/
theorem entryStarts (h : Bared ends after ms ms') (hf : ¬ Fronted ends ms) :
    entryStarts ms = entryStarts ms' := by
  rw [Source.entryStarts, Source.entryStarts, h.innermost]
  rcases h.nearest hf with ⟨h1, h2⟩ | ⟨m, t, t', h1, h2, -⟩ <;> rw [h1, h2]

/-- **An attribute** starts behind both texts or behind neither. -/
theorem attributeStarts (h : Bared ends after ms ms') (hf : ¬ Fronted ends ms) :
    attributeStarts ms = attributeStarts ms' := by
  refine congrArg₂ and ?_ ?_
  · cases h with
    | nil => rfl
    | same => rfl
    | comment _ _ _ hends => exact absurd ⟨[], _, by simp, rfl, hends⟩ hf
  · rcases h.nearest hf with ⟨h1, h2⟩ | ⟨m, t, t', h1, h2, hword⟩
    · rw [h1, h2]
    · rw [h1, h2]
      simp only [hword]

theorem opensTag (h : Bared ends after ms ms') (hf : ¬ Fronted ends ms) (next : Option Char) :
    opensTag next ms = opensTag next ms' := by
  refine congrArg₂ and rfl ?_
  rcases h.nearest hf with ⟨h1, h2⟩ | ⟨m, t, t', h1, h2, hword⟩
  · rw [h1, h2]
  · rw [h1, h2]
    simp only [hword]

/-- **The inside of a tag** is inside in both texts or in neither, when no comment stands in front of
a tag. -/
theorem insideTag {next next' : Option Char} (h : Bared ends after ms ms')
    (hn : next = next' ∨ startsTag next = false ∧ startsTag next' = false)
    (hf : ∀ us vs, ms = us ++ ⟨'<', true⟩ :: vs →
      startsTag ((us.getLast?.map Mark.char).or next) = true → ¬ Fronted ends vs) (d : Nat) :
    insideTag d next ms = insideTag d next' ms' := by
  induction h generalizing d next next' with
  | nil => rfl
  | @same after m ms ms' h ih =>
    have hrest : ∀ us vs, ms = us ++ ⟨'<', true⟩ :: vs →
        startsTag ((us.getLast?.map Mark.char).or (some m.char)) = true → ¬ Fronted ends vs := by
      intro us vs hms hs
      refine hf (m :: us) vs (by rw [hms]; rfl) ?_
      rw [List.getLast?_cons]
      cases hl : us.getLast? with
      | none => simpa [hl] using hs
      | some x => simpa [hl] using hs
    have ih := fun d => @ih (some m.char) (some m.char) (.inl rfl) hrest d
    have hopens : m = ⟨'<', true⟩ → Source.opensTag next ms = Source.opensTag next' ms' := by
      intro hm
      rcases hn with rfl | ⟨hn, hn'⟩
      · cases hs : startsTag next with
        | false => rw [opensTag_eq_false hs, opensTag_eq_false hs]
        | true => exact h.opensTag (hf [] ms (by rw [hm]; rfl) hs) next
      · rw [opensTag_eq_false hn, opensTag_eq_false hn']
    obtain ⟨c, inCode⟩ := m
    cases inCode with
    | false => simpa only [Source.insideTag, Bool.not_false, if_true] using ih d
    | true =>
      by_cases hc : c = '<'
      · subst hc
        cases d with
        | zero => exact hopens rfl
        | succ d => exact ih (d + 1)
      · simp only [Source.insideTag, ih, if_neg hc]
  | @comment after t bs ms ms' hcut hne hbs _ _ ih =>
    obtain ⟨t', rfl⟩ := List.head?_eq_some_iff.1 hcut.head?
    obtain ⟨b, bs, rfl⟩ := List.exists_cons_of_ne_nil hne
    have hb := hbs b (List.mem_cons_self ..)
    rw [Behind.insideTag_of_ne (by decide), Behind.insideTag_marks fun _ c hc =>
      not_mem_tagMarks_of_isBlank (hbs c hc)]
    refine ih (.inr ⟨rfl, startsTag_of_isBlank hb⟩) (fun us vs hms hs => ?_) d
    refine hf ((Piece.marks ⟨.comment, '/' :: t'⟩).reverse ++ us) vs
      (by rw [hms, List.append_assoc]) ?_
    rw [List.getLast?_append]
    cases hl : us.getLast? with
    | none => rw [hl] at hs; cases hs
    | some x => simpa [hl] using hs

end Bared

/-! ### What follows a place -/

/-- Two texts behind a place. The second one has spaces for the comments of the first, which start
as `starts` says. -/
inductive Hushed (starts : List Char → Prop) : List Char → List Char → Prop
  | nil : Hushed starts [] []
  | same (c : Char) {y y' : List Char} : Hushed starts y y' → Hushed starts (c :: y) (c :: y')
  | comment {t bs y y' : List Char} : t.head? = some '/' → bs ≠ [] →
    (∀ c ∈ bs, isBlank c = true) → starts (t ++ y) → Hushed starts y y' →
    Hushed starts (t ++ y) (bs ++ y')

namespace Hushed

variable {starts : List Char → Prop} {y y' : List Char}

theorem append (t : List Char) (h : Hushed starts y y') : Hushed starts (t ++ y) (t ++ y') := by
  induction t with
  | nil => exact h
  | cons c t ih => exact .same c ih

/-- Both texts start with the same mark, or neither does with it. -/
theorem head?_ne (h : Hushed starts y y') {d : Char} (hd : isBlank d = false) (hd' : d ≠ '/') :
    (y.head? != some d) = (y'.head? != some d) := by
  cases h with
  | nil => rfl
  | same => rfl
  | comment ht hne hbs =>
    obtain ⟨t, rfl⟩ := List.head?_eq_some_iff.1 ht
    obtain ⟨b, bs, rfl⟩ := List.exists_cons_of_ne_nil hne
    have hb : b ≠ d := by
      rintro rfl
      cases (hbs b (List.mem_cons_self ..)).symm.trans hd
    have hslash : some '/' ≠ some d := fun h => hd' (Option.some.inj h).symm
    have hblank : some b ≠ some d := fun h => hb (Option.some.inj h)
    rw [List.cons_append, List.cons_append, List.head?_cons, List.head?_cons, bne_iff_ne.2 hslash,
      bne_iff_ne.2 hblank]

/-- **The nearest character** behind a place is the same without comments when no comment is
nearer. -/
theorem nearest (h : Hushed starts y y') (hf : ¬ Followed starts y) :
    (skipBlanks y = [] ∧ skipBlanks y' = []) ∨
      ∃ c z z', skipBlanks y = c :: z ∧ skipBlanks y' = c :: z' ∧ Hushed starts z z' := by
  induction h with
  | nil => exact .inl ⟨rfl, rfl⟩
  | @same c y y' h ih =>
    by_cases hb : isBlank c = true
    · rw [skipBlanks, skipBlanks, List.dropWhile_cons_of_pos hb, List.dropWhile_cons_of_pos hb]
      exact ih fun hf' => hf (hf'.cons hb)
    · rw [skipBlanks, skipBlanks, List.dropWhile_cons_of_neg hb, List.dropWhile_cons_of_neg hb]
      exact .inr ⟨c, y, y', rfl, rfl, h⟩
  | comment _ _ _ hstarts => exact absurd ⟨[], _, by simp, rfl, hstarts⟩ hf

/-- **A colon** follows in both texts or in neither. -/
theorem colonFollows (h : Hushed starts y y') (hf : ¬ Followed starts y) :
    colonFollows y = colonFollows y' := by
  unfold Source.colonFollows
  rcases h.nearest hf with ⟨h1, h2⟩ | ⟨c, z, z', h1, h2, hz⟩
  · rw [h1, h2]
  · rw [h1, h2]
    by_cases hc : c = ':'
    · subst hc
      exact hz.head?_ne (by decide) (by decide)
    · by_cases hq : c = '?'
      · subst hq
        cases hz with
        | nil => rfl
        | @same e z z' hz =>
          by_cases he : e = ':'
          · subst he
            exact hz.head?_ne (by decide) (by decide)
          · simp [he]
        | comment ht hne hbs =>
          obtain ⟨t, rfl⟩ := List.head?_eq_some_iff.1 ht
          obtain ⟨b, bs, rfl⟩ := List.exists_cons_of_ne_nil hne
          have hb : b ≠ ':' := by
            rintro rfl
            cases hbs ':' (List.mem_cons_self ..)
          simp [hb]
      · simp [hc, hq]

/-- **An assignment** follows in both texts or in neither. -/
theorem assignmentFollows (h : Hushed starts y y') (hf : ¬ Followed starts y) :
    assignmentFollows y = assignmentFollows y' := by
  unfold Source.assignmentFollows
  rcases h.nearest hf with ⟨h1, h2⟩ | ⟨c, z, z', h1, h2, hz⟩
  · rw [h1, h2]
  · rw [h1, h2]
    by_cases hc : c = '='
    · subst hc
      exact congrArg₂ and (hz.head?_ne (by decide) (by decide)) (hz.head?_ne (by decide) (by decide))
    · simp [hc]

end Hushed

/-! ### Tokens without comments -/

theorem Piece.marksOf_uncomment {p : Piece} (h : p.kind = .comment) :
    marksOf p.uncomment = Piece.marks ⟨.code, p.bare⟩ := by
  rw [Piece.uncomment, if_pos h]
  induction p.bare with
  | nil => rfl
  | cons c t ih => rw [List.map_cons, marksOf_cons, ih]; rfl

theorem marksOf_concat_reverse (ps : List Piece) (p : Piece) :
    (marksOf (ps ++ [p])).reverse = p.marks.reverse ++ (marksOf ps).reverse := by
  rw [marksOf_append, List.reverse_append, marksOf_cons, marksOf_nil, List.append_nil]

theorem uncomment_singleton (p : Piece) : uncomment [p] = p.uncomment := List.append_nil _

theorem bared_of_tokens {ends : List Mark → Prop} {xs : List Piece} {after : List Char}
    (h : ∀ us q vs, xs = us ++ q :: vs → q.kind = .comment →
      CommentCut q.text (textOf vs ++ after) ∧ ends (marksOf (us ++ [q])).reverse) :
    Bared ends after (marksOf xs).reverse (marksOf (uncomment xs)).reverse := by
  induction xs using List.reverseRecOn generalizing after with
  | nil => exact .nil after
  | append_singleton xs p ih =>
    have ih : Bared ends (p.text ++ after) _ _ := ih fun us q vs hxs hk => by
      have := h us q (vs ++ [p]) (by rw [hxs]; simp) hk
      simpa using this
    rw [marksOf_concat_reverse, uncomment_append, uncomment_singleton, marksOf_append,
      List.reverse_append]
    by_cases hk : p.kind = .comment
    · obtain ⟨hcut, hends⟩ := h xs p [] rfl hk
      rw [marksOf_concat_reverse] at hends
      rw [p.marksOf_uncomment hk]
      obtain ⟨k, t⟩ := p
      obtain rfl : k = .comment := hk
      exact .comment hcut (Piece.bare_ne_nil hcut.ne_nil) (isBlank_of_mem_bare rfl) hends ih
    · rw [p.uncomment_of_ne hk, marksOf_cons, marksOf_nil, List.append_nil]
      exact ih.marks p.kind p.text

theorem hushed_of_tokens {starts : List Char → Prop} {ys : List Piece}
    (h : ∀ us q vs, ys = us ++ q :: vs → q.kind = .comment →
      CommentCut q.text (textOf vs) ∧ starts (textOf (q :: vs))) :
    Hushed starts (textOf ys) (textOf (uncomment ys)) := by
  induction ys with
  | nil => exact .nil
  | cons p ps ih =>
    have ih := ih fun us q vs hps hk => h (p :: us) q vs (by rw [hps]; rfl) hk
    rw [uncomment_cons, textOf_append, textOf_cons, p.textOf_uncomment]
    by_cases hk : p.kind = .comment
    · obtain ⟨hcut, hstarts⟩ := h [] p ps rfl hk
      exact .comment hcut.head? (Piece.bare_ne_nil hcut.ne_nil) (isBlank_of_mem_bare hk) hstarts ih
    · rw [p.bare_of_ne hk]
      exact ih.append p.text

end Renaming.Source
