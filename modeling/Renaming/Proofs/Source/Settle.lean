import Renaming.Proofs.Source.Ahead
import Renaming.Proofs.Source.Match
import Renaming.Proofs.Source.Step

/-!
Letters behind a regular expression. When a name that starts with a letter is written where a
regular expression ends, the expression takes the letters as flags, and only the rest of the name
is a word. `settle` says what becomes of tokens then.

* `tokens_absorb`: the reader takes letters in this way.
* `exists_of_placed_settle`: the places of settled tokens are those of the tokens, and the rests of
  names.
-/

namespace Renaming.Source

open Renaming.Text (isBlank)

/-! ### Settled tokens -/

/-- A regular expression in front of tokens: it takes the letters that they start with. -/
def Piece.absorb (p : Piece) : List Piece → List Piece
  | ⟨.code, w⟩ :: ps => ⟨p.kind, p.text ++ w.takeWhile isFlag⟩ ::
      if w.dropWhile isFlag = [] then ps else ⟨.code, w.dropWhile isFlag⟩ :: ps
  | ps => p :: ps

/-- Tokens of which each regular expression has taken the letters that follow it. -/
def settle : List Piece → List Piece
  | [] => []
  | p :: ps => if p.isRegex then p.absorb (settle ps) else p :: settle ps

theorem Piece.absorb_of_isFlag {p : Piece} {c : Char} (h : isFlag c = false) (w : List Char)
    (ps : List Piece) : p.absorb (⟨.code, c :: w⟩ :: ps) = p :: ⟨.code, c :: w⟩ :: ps := by
  have hc : ¬ isFlag c = true := by simp [h]
  rw [Piece.absorb, List.takeWhile_cons_of_neg hc, List.dropWhile_cons_of_neg hc, List.append_nil,
    if_neg (List.cons_ne_nil _ _)]

theorem Piece.absorb_of_kind {p q : Piece} (h : q.kind ≠ .code) (ps : List Piece) :
    p.absorb (q :: ps) = p :: q :: ps := by
  obtain ⟨k, t⟩ := q
  cases k with
  | code => exact absurd rfl h
  | literal => rfl
  | comment => rfl

theorem Piece.absorb_cons (p q : Piece) (ps : List Piece) :
    p.absorb (q :: ps) = p.absorb [q] ++ ps := by
  obtain ⟨k, w⟩ := q
  cases k with
  | code =>
    simp only [Piece.absorb]
    split <;> simp
  | literal => rfl
  | comment => rfl

/-- What stands in front of a string or a comment is settled on its own. -/
theorem settle_append {q : Piece} (hk : q.kind ≠ .code) (hr : q.isRegex = false)
    (ps qs : List Piece) : settle (ps ++ q :: qs) = settle ps ++ q :: settle qs := by
  induction ps with
  | nil => simp [settle, hr]
  | cons p ps ih =>
    rw [List.cons_append, settle, settle, ih]
    split
    · cases settle ps with
      | nil => exact Piece.absorb_of_kind hk _
      | cons u us =>
        rw [List.cons_append, Piece.absorb_cons, Piece.absorb_cons p u us, List.append_assoc]
    · rfl

/-- The reader after a regular expression and a word behind it, which is one word and letters. -/
theorem Reader.expression_word (s : Reader) (c : Char) (cut : Cut) (f w r : List Char) :
    (s.expression c ⟨cut.text ++ f, r⟩).2.word w = (s.expression c cut).2.word (f ++ w) := by
  simp [Reader.expression, Reader.word]

theorem takeWhile_isFlag (y : List Char) :
    (y.takeWhile isWord).takeWhile isFlag = y.takeWhile isFlag := by
  induction y with
  | nil => rfl
  | cons c y ih =>
    by_cases hc : isFlag c = true
    · rw [List.takeWhile_cons_of_pos (isWord_of_isFlag hc), List.takeWhile_cons_of_pos hc,
        List.takeWhile_cons_of_pos hc, ih]
    · rw [List.takeWhile_cons_of_neg hc]
      by_cases hw : isWord c = true
      · rw [List.takeWhile_cons_of_pos hw, List.takeWhile_cons_of_neg hc]
      · rw [List.takeWhile_cons_of_neg hw]
        rfl

theorem dropWhile_isFlag (y : List Char) :
    y.dropWhile isFlag = (y.takeWhile isWord).dropWhile isFlag ++ y.dropWhile isWord := by
  have h := List.takeWhile_append_dropWhile (p := isWord) (l := y)
  have h' := List.takeWhile_append_dropWhile (p := isFlag) (l := y)
  have h'' := List.takeWhile_append_dropWhile (p := isFlag) (l := y.takeWhile isWord)
  rw [takeWhile_isFlag] at h''
  rw [← h'', List.append_assoc] at h
  exact List.append_cancel_left (h'.trans h.symm)

/-- **A regular expression takes the letters that follow it.** -/
theorem tokens_absorb (s : Reader) {cut : Cut} {r y : List Char}
    (hr : ∀ c ∈ (cut.text ++ y).head?, c ≠ '/' ∧ c ≠ '*') (ha : s.allowsRegex = true)
    (hcut : regex false false r = some cut) : tokens s ('/' :: (cut.text ++ y)) =
      Piece.absorb ⟨.literal, '/' :: cut.text⟩ (tokens (s.expression '/' cut).2 y) := by
  rw [tokens_of_not_isWord s (by decide), (Reads.regex _ hr ha (regex_append hcut y)).next_eq]
  change ⟨.literal, '/' :: (cut.text ++ y.takeWhile isFlag)⟩ ::
    tokens (s.expression '/' ⟨cut.text ++ y.takeWhile isFlag, y.dropWhile isFlag⟩).2
      (y.dropWhile isFlag) = _
  cases y with
  | nil =>
    rw [List.takeWhile_nil, List.dropWhile_nil, List.append_nil, tokens_nil, tokens_nil]
    rfl
  | cons c y =>
    by_cases hw : isWord c = true
    · -- a word follows, of which the expression takes the letters
      generalize hx : c :: y = x
      have hfirst : tokens (s.expression '/' cut).2 x = ⟨.code, x.takeWhile isWord⟩ ::
          tokens ((s.expression '/' cut).2.word (x.takeWhile isWord)) (x.dropWhile isWord) := by
        rw [← hx, tokens_of_isWord _ hw, List.takeWhile_cons_of_pos hw, List.dropWhile_cons_of_pos hw]
      rw [hfirst, Piece.absorb, takeWhile_isFlag, List.cons_append]
      congr 1
      have hword : x.takeWhile isFlag ++ (x.takeWhile isWord).dropWhile isFlag =
          x.takeWhile isWord := by
        rw [← takeWhile_isFlag, List.takeWhile_append_dropWhile]
      have hstate := s.expression_word '/' cut (x.takeWhile isFlag)
        ((x.takeWhile isWord).dropWhile isFlag) (x.dropWhile isFlag)
      rw [hword] at hstate
      rw [← hstate]
      generalize hs : (s.expression '/' _).2 = s₁
      rw [dropWhile_isFlag x]
      split
      · next hd =>
        rw [hd, List.nil_append, Reader.word_nil]
        rw [← hs]
        rfl
      · next hd =>
        refine tokens_word_append s₁ hd (fun d hd => ?_) head?_dropWhile
        exact List.all_eq_true.1 List.all_takeWhile d ((List.dropWhile_sublist _).mem hd)
    · rw [Bool.not_eq_true] at hw
      have hc : ¬ isFlag c = true := fun hc => by
        rw [isWord_of_isFlag hc] at hw
        cases hw
      have hsame : (s.expression '/' ⟨cut.text, c :: y⟩).2 = (s.expression '/' cut).2 := rfl
      rw [List.takeWhile_cons_of_neg hc, List.dropWhile_cons_of_neg hc, List.append_nil, hsame,
        tokens_of_not_isWord _ hw]
      by_cases hk : ((s.expression '/' cut).2.next c y).1.kind = .code
      · rw [Lexeme.piece, hk, Reader.text_of_kind_code hk, Piece.absorb_of_isFlag (by simpa using hc)]
      · rw [Piece.absorb_of_kind hk]

/-! ### Names without new letters -/

section

variable {L : Bool → Bool → Prop} {ren : Site → String} {before : List Mark} {after : List Char}

theorem Seam.of_isRegex {p : Piece} {rest : List Char} (h : Seam p rest) (hp : p.isRegex = true) :
    ∀ d ∈ rest.head?, isFlag d = false := by
  rcases h with h | ⟨h, -⟩
  · exact h
  · rw [hp] at h
    cases h

theorem head?_textOf_cons {q : Piece} {ps : List Piece}
    (h : ∀ c ∈ (textOf (q :: ps)).head?, isFlag c = false) : ∀ c ∈ q.text.head?, isFlag c = false := by
  intro c hc
  obtain ⟨t, ht⟩ := List.head?_eq_some_iff.1 (Option.mem_def.1 hc)
  exact h c (by rw [textOf_cons, ht]; rfl)

theorem Redrawn.text_ne_nil {p p' : Piece} (h : Redrawn L after p p') (hp : p.text ≠ []) :
    p'.text ≠ [] := by
  cases h with
  | same => exact hp
  | word _ hw' => exact hw'.ne_nil
  | content => exact List.cons_ne_nil _ _

theorem isRegex_redraw {p : Piece} (h : (p.redraw ren before after).isRegex = true) :
    p.redraw ren before after = p := by
  have hshape := p.shape before after
  unfold Piece.redraw at h ⊢
  generalize p.fragments before after = fs at h hshape ⊢
  cases hshape with
  | kept => simp [Fragment.redraw]
  | word => cases h
  | @content q m hq =>
    have hne : q ≠ '/' := by
      rintro rfl
      cases hq
    simp [Piece.isRegex, Fragment.redraw, hne] at h

/-- A token of the code that starts with no letter before and with one after is a place. -/
theorem exists_site_redraw {q : Piece} (hk : q.kind = .code)
    (hflag : ∀ c ∈ q.text.head?, isFlag c = false)
    (h : startsWithLetter (q.redraw ren before after).text = true) :
    ∃ site, .place site ∈ q.fragments before after ∧ site.inCode = true ∧
      startsWithLetter site.name.toList = false ∧
        (q.redraw ren before after).text = (ren site).toList := by
  have hnot : startsWithLetter q.text = false := by
    rw [startsWithLetter]
    cases hq : q.text.head? with
    | none => rfl
    | some c => exact hflag c hq
  have hshape := q.shape before after
  unfold Piece.redraw at h ⊢
  generalize q.fragments before after = fs at h hshape ⊢
  cases hshape with
  | kept =>
    have htext : ([Fragment.kept q.text].flatMap (Fragment.redraw ren)) = q.text := by
      simp [Fragment.redraw]
    rw [htext, hnot] at h
    cases h
  | @word w => exact ⟨_, List.mem_singleton_self _, rfl, hnot, by simp [Fragment.redraw]⟩
  | content => cases hk

/-- Names that get no letter in front leave regular expressions as they are. -/
theorem settle_redrawn {ps : List Piece} (hcut : WellCut ps) (hsafe : Safe ren L before ps)
    (hletter : ∀ site, .place site ∈ placed before ps → site.inCode = true →
      startsWithLetter (ren site).toList = true → startsWithLetter site.name.toList = true) :
    settle (redrawn ren before ps) = redrawn ren before ps := by
  induction ps generalizing before with
  | nil => rfl
  | cons p ps ih =>
    have ih := ih hcut.tail hsafe.tail fun site hs => hletter site (List.mem_append_right _ hs)
    rw [redrawn, settle, ih]
    split
    · next hregex =>
      have hp := isRegex_redraw hregex
      rw [hp] at hregex ⊢
      have hseam := hcut.seam.of_isRegex hregex
      cases ps with
      | nil => rfl
      | cons q ps =>
        rw [redrawn]
        by_cases hk : q.kind = .code
        · have hne := (redrawn_redraw hsafe.tail.head).text_ne_nil
            (hcut.tail.text_ne_nil q (List.mem_cons_self ..))
          obtain ⟨c, t, ht⟩ := List.exists_cons_of_ne_nil hne
          have hc : isFlag c = false := by
            rw [Bool.eq_false_iff]
            intro hc
            obtain ⟨site, hs, hcode, hnot, htext⟩ := exists_site_redraw hk
              (head?_textOf_cons hseam) (by rw [ht]; simpa [startsWithLetter] using hc)
            rw [hletter site (List.mem_append_right _ (List.mem_append_left _ hs)) hcode] at hnot
            · cases hnot
            · rw [← htext, ht]
              simpa [startsWithLetter] using hc
          have hq : q.redraw ren (p.marks.reverse ++ before) (textOf ps) = ⟨.code, c :: t⟩ := by
            rw [← ht, ← hk]
            rfl
          rw [hq, Piece.absorb_of_isFlag hc]
        · exact Piece.absorb_of_kind (q := q.redraw _ _ _) hk _
    · rfl

end

end Renaming.Source
