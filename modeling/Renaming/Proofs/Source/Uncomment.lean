import Renaming.Proofs.Rename.Skipped
import Renaming.Proofs.Source.Bytes
import Renaming.Proofs.Source.Reread

/-!
A source without its comments. In `uncommented` all bytes of the comments but the line feeds are
spaces, so everything else stays where it is.

The text is read as the tokens of the source, with spaces for the comments (`tokens_uncomment`),
unless a comment stands directly behind a backslash of the code: then a regular expression could
start in front of it that only the space behind the backslash lets go on.
-/

namespace Renaming

open Renaming.Text (isBlank)

namespace Source

/-! ### Spaces for comments -/

/-- What is left of a character of a comment: a line feed stays, and for any other one there are as
many spaces as it has bytes. -/
def blanked (c : Char) : List Char := if c = '\n' then [c] else List.replicate (byteLength [c]) ' '

/-- The text of a piece, with spaces for a comment. -/
def Piece.bare (p : Piece) : List Char :=
  if p.kind = .comment then p.text.flatMap blanked else p.text

/-- A piece as tokens without a comment: each space of it is code. -/
def Piece.uncomment (p : Piece) : List Piece :=
  if p.kind = .comment then p.bare.map (⟨.code, [·]⟩) else [p]

/-- Tokens without comments. -/
def uncomment (ps : List Piece) : List Piece := ps.flatMap Piece.uncomment

theorem uncomment_cons (p : Piece) (ps : List Piece) :
    uncomment (p :: ps) = p.uncomment ++ uncomment ps := rfl

theorem uncomment_append (ps qs : List Piece) :
    uncomment (ps ++ qs) = uncomment ps ++ uncomment qs := by
  simp [uncomment]

theorem Piece.uncomment_of_ne {p : Piece} (h : p.kind ≠ .comment) : p.uncomment = [p] := if_neg h

theorem Piece.bare_of_ne {p : Piece} (h : p.kind ≠ .comment) : p.bare = p.text := if_neg h

theorem textOf_map_code (t : List Char) : textOf (t.map fun c => (⟨.code, [c]⟩ : Piece)) = t := by
  simp [textOf, List.flatMap_map]

theorem Piece.textOf_uncomment (p : Piece) : textOf p.uncomment = p.bare := by
  unfold Piece.uncomment
  split
  · exact textOf_map_code _
  · next h => rw [p.bare_of_ne h, textOf_cons, textOf_nil, List.append_nil]

theorem textOf_uncomment (ps : List Piece) : textOf (uncomment ps) = ps.flatMap Piece.bare := by
  induction ps with
  | nil => rfl
  | cons p ps ih => rw [uncomment_cons, textOf_append, p.textOf_uncomment, ih, List.flatMap_cons]

theorem flatMap_bare_mergeAll (ps : List Piece) :
    (mergeAll ps).flatMap Piece.bare = ps.flatMap Piece.bare := by
  induction ps with
  | nil => rfl
  | cons p ps ih =>
    rcases mergeAll_cons p ps with ⟨hk, q, qs, hm, hq, hj⟩ | hj
    · rw [hj, List.flatMap_cons, List.flatMap_cons, ← ih, hm, List.flatMap_cons,
        p.bare_of_ne (by simp [hk]), q.bare_of_ne (by simp [hq]), Piece.bare_of_ne (by simp),
        List.append_assoc]
    · rw [hj, List.flatMap_cons, List.flatMap_cons, ih]

theorem isBlank_of_mem_blanked {c d : Char} (h : d ∈ blanked c) : isBlank d = true := by
  unfold blanked at h
  split at h
  · next hc =>
    rw [List.mem_singleton.1 h, hc]
    decide
  · rw [List.eq_of_mem_replicate h]
    decide

theorem isBlank_of_mem_bare {p : Piece} (h : p.kind = .comment) : ∀ c ∈ p.bare, isBlank c = true := by
  intro c hc
  rw [Piece.bare, if_pos h] at hc
  obtain ⟨d, -, hd⟩ := List.mem_flatMap.1 hc
  exact isBlank_of_mem_blanked hd

theorem byteLength_replicate_space (n : Nat) : byteLength (List.replicate n ' ') = n := by
  induction n with
  | zero => rfl
  | succ n ih =>
    rw [List.replicate_succ, ← List.singleton_append, byteLength_append, ih,
      Segment.byteLength_of_lt (by decide), Nat.add_comm]

/-- **No position changes** when the comments give way to spaces. -/
theorem Piece.byteLength_bare (p : Piece) : byteLength p.bare = byteLength p.text := by
  have hchar : ∀ c, byteLength (blanked c) = byteLength [c] := by
    intro c
    unfold blanked
    split
    · rfl
    · exact byteLength_replicate_space _
  unfold Piece.bare
  split
  · induction p.text with
    | nil => rfl
    | cons c t ih =>
      rw [List.flatMap_cons, byteLength_append, hchar, ih, ← byteLength_append]
      rfl
  · rfl

theorem Piece.bare_ne_nil {p : Piece} (h : p.text ≠ []) : p.bare ≠ [] := by
  intro hb
  have := p.byteLength_bare
  rw [hb, byteLength_nil] at this
  have := byteLength_pos h
  omega

/-- No line changes. -/
theorem Piece.feeds_bare (p : Piece) : feeds p.bare = feeds p.text := by
  have hchar : ∀ c, feeds (blanked c) = feeds [c] := by
    intro c
    unfold blanked
    split
    · rfl
    · next hc =>
      rw [feeds_eq_zero, feeds_eq_zero]
      · simpa using Ne.symm hc
      · exact fun hmem => absurd (List.eq_of_mem_replicate hmem) (by decide)
  unfold Piece.bare
  split
  · induction p.text with
    | nil => rfl
    | cons c t ih =>
      rw [List.flatMap_cons, feeds_append, hchar, ih, ← feeds_append]
      rfl
  · rfl

theorem byteLength_textOf_uncomment (ps : List Piece) :
    byteLength (textOf (uncomment ps)) = byteLength (textOf ps) := by
  induction ps with
  | nil => rfl
  | cons p ps ih =>
    rw [uncomment_cons, textOf_append, textOf_cons, byteLength_append, byteLength_append, ih,
      p.textOf_uncomment, p.byteLength_bare]

end Source

open Source

/-- A source with spaces for its comments, where only the line feeds of them are left. -/
def uncommented (source : String) : String :=
  String.ofList ((pieces source.toList).flatMap Piece.bare)

theorem toList_uncommented (source : String) :
    (uncommented source).toList = textOf (uncomment (tokensOf source.toList)) := by
  rw [uncommented, String.toList_ofList, pieces_eq_mergeAll, flatMap_bare_mergeAll,
    textOf_uncomment]

theorem utf8_blanked (c : Char) :
    utf8 (blanked c) = (utf8 [c]).map fun b => if b ≠ 0x0a then 0x20 else b := by
  unfold blanked
  split
  · next hc =>
    subst hc
    decide
  · next hc =>
    have hne : ∀ b ∈ utf8 [c], b ≠ 0x0a := by
      rintro b hb rfl
      by_cases hlt : c.toNat < 0x80
      · rw [utf8_of_lt hlt, List.mem_singleton] at hb
        have hchar := ofUInt8_ofNat hlt
        rw [← hb] at hchar
        exact hc hchar.symm
      · have := le_of_mem_utf8 (Nat.not_lt.1 hlt) hb
        exact absurd this (by decide)
    have hspaces : ∀ n, utf8 (List.replicate n ' ') = List.replicate n 0x20 := by
      intro n
      induction n with
      | zero => rfl
      | succ n ih =>
        rw [List.replicate_succ, ← List.singleton_append, utf8_append, ih, List.replicate_succ]
        rfl
    rw [hspaces, ← length_utf8, ← List.map_const]
    exact List.map_congr_left fun b hb => (if_pos (hne b hb)).symm

/-- **The bytes of a source without its comments** are those of its pieces, where each byte of a
comment that is no line feed is a space. -/
theorem utf8_uncommented (source : String) : utf8 (uncommented source).toList =
    (pieces source.toList).flatMap fun p =>
      (utf8 p.text).map fun b => if p.kind = .comment ∧ b ≠ 0x0a then 0x20 else b := by
  have hpiece : ∀ p : Piece, utf8 p.bare =
      (utf8 p.text).map fun b => if p.kind = .comment ∧ b ≠ 0x0a then 0x20 else b := by
    intro p
    by_cases hk : p.kind = .comment
    · simp only [Piece.bare, hk, if_true, true_and]
      induction p.text with
      | nil => rfl
      | cons c t ih =>
        rw [List.flatMap_cons, utf8_append, utf8_blanked, ih, ← List.map_append, ← utf8_append]
        rfl
    · simp [Piece.bare, hk]
  rw [uncommented, String.toList_ofList]
  induction pieces source.toList with
  | nil => rfl
  | cons p ps ih => rw [List.flatMap_cons, utf8_append, ih, hpiece, List.flatMap_cons]

namespace Source

/-! ### Comments among tokens -/

/-- A comment and the text that follows it. -/
inductive CommentCut : List Char → List Char → Prop
  | line (u : List Char) : CommentCut ('/' :: '/' :: (lineComment u).text) (lineComment u).rest
  | block (u : List Char) : CommentCut ('/' :: '*' :: (blockComment u).text) (blockComment u).rest

theorem CommentCut.head? {t y : List Char} (h : CommentCut t y) : t.head? = some '/' := by
  cases h <;> rfl

theorem CommentCut.ne_nil {t y : List Char} (h : CommentCut t y) : t ≠ [] := by
  cases h <;> exact List.cons_ne_nil _ _

theorem commentCut_of_tokens {s : Reader} {cs : List Char} {xs : List Piece} {q : Piece}
    {ys : List Piece} (h : tokens s cs = xs ++ q :: ys) (hk : q.kind = .comment) :
    CommentCut q.text (textOf ys) := by
  obtain ⟨s', c, r, -, rfl, hrest⟩ := exists_next_of_tokens h (by simp [Piece.isWord, hk])
  rw [← hrest]
  have hreads := s'.reads_next c r
  generalize s'.next c r = o at hk hreads ⊢
  cases hreads with
  | line u => exact .line u
  | block u => exact .block u
  | _ => cases hk

/-- The comments among tokens that follow the text `a` are cut off as comments are, and none of
them stands directly behind a backslash. -/
structure Loose (a : List Char) (ps : List Piece) : Prop where
  cut : ∀ xs q ys, ps = xs ++ q :: ys → q.kind = .comment → CommentCut q.text (textOf ys)
  unescaped : ∀ xs q ys, ps = xs ++ q :: ys → q.kind = .comment →
    (a ++ textOf xs).getLast? ≠ some '\\'

theorem Loose.tail {a : List Char} {p : Piece} {ps : List Piece} (h : Loose a (p :: ps)) :
    Loose (a ++ p.text) ps where
  cut xs q ys hps := h.cut (p :: xs) q ys (by rw [hps]; rfl)
  unescaped xs q ys hps hk := by
    have := h.unescaped (p :: xs) q ys (by rw [hps]; rfl) hk
    rwa [textOf_cons, ← List.append_assoc] at this

/-! ### What is read ahead -/

section

variable {a : List Char} {p : Piece} {ps : List Piece}

theorem head?_uncomment (h : Loose a ps) (hne : ∀ p ∈ ps, p.text ≠ []) :
    (textOf (uncomment ps)).head? = (textOf ps).head? ∨
      (textOf ps).head? = some '/' ∧ ∃ c, (textOf (uncomment ps)).head? = some c ∧ isBlank c = true := by
  rcases ps with _ | ⟨p, ps⟩
  · exact .inl rfl
  · obtain ⟨c, t, ht⟩ := List.exists_cons_of_ne_nil (hne p (List.mem_cons_self ..))
    by_cases hk : p.kind = .comment
    · have hhead := (h.cut [] p ps rfl hk).head?
      rw [ht] at hhead
      obtain rfl : c = '/' := by simpa using hhead
      refine .inr ⟨by rw [textOf_cons, ht]; rfl, ?_⟩
      obtain ⟨d, u, hu⟩ := List.exists_cons_of_ne_nil
        (p.bare_ne_nil (by rw [ht]; exact List.cons_ne_nil _ _))
      refine ⟨d, ?_, isBlank_of_mem_bare hk d (by rw [hu]; exact List.mem_cons_self ..)⟩
      rw [uncomment_cons, textOf_append, p.textOf_uncomment, hu]
      rfl
    · rw [uncomment_cons, p.uncomment_of_ne hk, textOf_append, textOf_cons, textOf_cons, ht]
      exact .inl rfl

theorem sameEnd_uncomment (h : Loose a ps) (hne : ∀ p ∈ ps, p.text ≠ []) :
    SameEnd (textOf ps) (textOf (uncomment ps)) := by
  have hhead := head?_uncomment h hne
  constructor
  · intro hy
    rw [hy] at hhead
    rcases hhead with hhead | ⟨hhead, -⟩
    · exact List.head?_eq_none_iff.1 hhead
    · cases hhead
  · intro hy
    rcases hhead with hhead | ⟨hhead, -⟩
    · rw [hhead, hy]
    · rw [hy] at hhead
      cases hhead

/-- What the scanner of a regular expression remembers behind a character: whether the next one is
escaped, and whether a class of characters is open. -/
def regexStep (e k : Bool) (c : Char) : Bool × Bool :=
  if e then (false, k) else (c == '\\', if c = '[' then true else if c = ']' then false else k)

theorem regexStep_escaped {e k : Bool} {c : Char} (h : (regexStep e k c).1 = true) : c = '\\' := by
  cases e with
  | true => cases h
  | false => simpa [regexStep] using h

/-- A regular expression does not end when the line does first, or when it goes on and does not end
in the text that is left. -/
theorem regex_cons_eq_none_iff {e k : Bool} {c : Char} {r : List Char} :
    regex e k (c :: r) = none ↔ (e = false ∧ c = '\n') ∨ ¬ (e = false ∧ c = '/' ∧ k = false) ∧
      regex (regexStep e k c).1 (regexStep e k c).2 r = none := by
  cases e with
  | true => simp [regex, regexStep]
  | false =>
    simp only [regex, regexStep]
    by_cases h1 : c = '\\'
    · subst h1
      simp
    by_cases h2 : c = '\n'
    · simp [h2]
    by_cases h3 : c = '['
    · subst h3
      simp
    by_cases h4 : c = ']'
    · subst h4
      simp
    by_cases h5 : c = '/'
    · subst h5
      cases k <;> simp
    · have hbeq : (c == '\\') = false := beq_eq_false_iff_ne.2 h1
      simp [h1, h2, h3, h4, h5, hbeq]

theorem regex_end {y : List Char} {k : Bool} (h : ∀ d ∈ y.head?, d = '\n') :
    regex false k y = none := by
  cases y with
  | nil => rfl
  | cons d y => exact regex_cons_eq_none_iff.2 (.inl ⟨rfl, h d rfl⟩)

theorem regex_append_of {t y y' : List Char} {e k : Bool}
    (hy : ∀ e' k', (e' = true → (t = [] ∧ e = true) ∨ t.getLast? = some '\\') →
      regex e' k' y = none → regex e' k' y' = none)
    (h : regex e k (t ++ y) = none) : regex e k (t ++ y') = none := by
  induction t generalizing e k with
  | nil => exact hy e k (fun he => .inl ⟨rfl, he⟩) h
  | cons c t ih =>
    rw [List.cons_append, regex_cons_eq_none_iff] at h ⊢
    refine h.imp_right (And.imp_right fun h₁ => ih (fun e' k' he' => ?_) h₁)
    refine hy e' k' fun he => .inr ?_
    rcases he' he with ⟨rfl, he₂⟩ | hl
    · rw [regexStep_escaped he₂]
      rfl
    · exact getLast?_cons_of_eq_some hl

theorem regex_blanks {bs y : List Char} {k : Bool} (hbs : ∀ c ∈ bs, isBlank c = true)
    (h : '\n' ∈ bs ∨ regex false k y = none) : regex false k (bs ++ y) = none := by
  induction bs with
  | nil => exact h.resolve_left (by simp)
  | cons c bs ih =>
    have hc := hbs c (List.mem_cons_self ..)
    have hne : ∀ d, isBlank d = false → c ≠ d := by
      rintro d hd rfl
      rw [hc] at hd
      cases hd
    rw [List.cons_append, regex_cons_eq_none_iff]
    by_cases hn : c = '\n'
    · exact .inl ⟨rfl, hn⟩
    · have hstep : regexStep false k c = (false, k) := by
        simp [regexStep, hne '\\' (by decide), hne '[' (by decide), hne ']' (by decide)]
      have h' : '\n' ∈ bs ∨ regex false k y = none :=
        h.imp_left fun hm => (List.mem_cons.1 hm).resolve_left (Ne.symm hn)
      rw [hstep]
      exact .inr ⟨fun h' => hne '/' (by decide) h'.2.1,
        ih (fun d hd => hbs d (List.mem_cons_of_mem _ hd)) h'⟩

/-- Behind a block comment that has ended no regular expression, the class of characters is open
that was open in front of it. -/
theorem regex_of_block {v y : List Char} {e k : Bool} (hv : '\n' ∉ v)
    (h : regex e k (v ++ '*' :: '/' :: y) = none) : regex false true y = none := by
  induction v generalizing e k with
  | nil =>
    -- no class is open at the slash only when the slash ends the expression
    have hslash : regex false k ('/' :: y) = none := by
      cases e <;> simpa [regex_cons_eq_none_iff, regexStep] using h
    cases k with
    | true => simpa [regex_cons_eq_none_iff, regexStep] using hslash
    | false => simp [regex_cons_eq_none_iff] at hslash
  | cons c v ih =>
    obtain ⟨hc, hv⟩ := not_or.1 (mt List.mem_cons.2 hv)
    rw [List.cons_append, regex_cons_eq_none_iff] at h
    rcases h with ⟨-, rfl⟩ | ⟨-, h⟩
    · exact absurd rfl hc
    · exact ih hv h

theorem blockComment_eq {u : List Char} (h : (blockComment u).rest ≠ []) :
    ∃ v, (blockComment u).text = v ++ ['*', '/'] := by
  fun_induction blockComment u with
  | case1 => exact absurd rfl h
  | case2 => exact ⟨[], rfl⟩
  | case3 c r _ ih =>
    obtain ⟨v, hv⟩ := ih h
    exact ⟨c :: v, by rw [Cut.text_push, hv, List.cons_append]⟩

theorem feed_mem_bare {p : Piece} (hk : p.kind = .comment) (h : '\n' ∈ p.text) : '\n' ∈ p.bare := by
  rw [Piece.bare, if_pos hk]
  exact List.mem_flatMap.2 ⟨'\n', h, by simp [blanked]⟩

theorem regex_behind_comment {t y y' : List Char} (hcut : CommentCut t y) (hfeed : '\n' ∉ t)
    (hend : SameEnd y y') (hn : regex false true (t ++ y) = none)
    (hy : regex false true y = none → regex false true y' = none) : regex false true y' = none := by
  cases hcut with
  | line u =>
    -- the line ends, or the source does
    refine regex_end fun d hd => ?_
    cases hrest : (lineComment u).rest with
    | nil =>
      rw [hend.nil hrest] at hd
      cases hd
    | cons c y =>
      have hc : c = '\n' := head?_lineComment u c (by rw [hrest]; rfl)
      rw [hend.line (by rw [hrest, hc]; rfl), Option.mem_def, Option.some.injEq] at hd
      exact hd.symm
  | block u =>
    by_cases hrest : (blockComment u).rest = []
    · rw [hend.nil hrest]
      rfl
    · obtain ⟨v, hv⟩ := blockComment_eq hrest
      rw [hv] at hn hfeed
      refine hy (regex_of_block (v := '/' :: '*' :: v) (e := false) (k := true) ?_ (by simpa using hn))
      intro hmem
      refine hfeed ?_
      rw [← List.cons_append, ← List.cons_append]
      exact List.mem_append_left _ hmem

/-- **No regular expression ends** in a text without comments that does not end in the text with
them. -/
theorem regex_uncomment {e k : Bool} (h : Loose a ps) (hne : ∀ p ∈ ps, p.text ≠ [])
    (he : e = true → a.getLast? = some '\\') (hn : regex e k (textOf ps) = none) :
    regex e k (textOf (uncomment ps)) = none := by
  induction ps generalizing a e k with
  | nil => exact hn
  | cons p ps ih =>
    obtain ⟨hp, hps⟩ := List.forall_mem_cons.1 hne
    have ih := fun {e k} => @ih _ e k h.tail hps
    rw [textOf_cons] at hn
    rw [uncomment_cons, textOf_append, p.textOf_uncomment]
    by_cases hk : p.kind = .comment
    · have hunesc := h.unescaped [] p ps rfl hk
      rw [textOf_nil, List.append_nil] at hunesc
      obtain rfl : e = false := by
        rw [Bool.eq_false_iff]
        exact fun he' => hunesc (he he')
      have hcut := h.cut [] p ps rfl hk
      obtain ⟨t, ht⟩ := List.head?_eq_some_iff.1 hcut.head?
      have hblank := isBlank_of_mem_bare hk
      -- outside a class of characters the comment would end the expression with its first slash
      obtain rfl : k = true := by
        cases k with
        | true => rfl
        | false =>
          rw [ht, List.cons_append, regex_cons_eq_none_iff] at hn
          simp at hn
      by_cases hfeed : '\n' ∈ p.text
      · exact regex_blanks hblank (.inl (feed_mem_bare hk hfeed))
      · exact regex_blanks hblank (.inr (regex_behind_comment hcut hfeed
          (sameEnd_uncomment h.tail hps) hn (ih nofun)))
    · rw [p.bare_of_ne hk]
      refine regex_append_of (fun e' k' he' hn' => ih (fun he₁ => ?_) hn') hn
      rcases he' he₁ with ⟨hnil, -⟩ | hl
      · exact absurd hnil hp
      · rw [List.getLast?_append, hl]
        rfl

theorem ahead_uncomment (h : Loose a ps) (hne : ∀ p ∈ ps, p.text ≠ []) :
    Ahead (textOf ps) (textOf (uncomment ps)) := by
  have hhead := head?_uncomment h hne
  refine ⟨sameEnd_uncomment h hne, ?_, fun hn => ?_⟩
  · intro c hc hy hy'
    rcases hhead with hhead | ⟨-, d, hd, hb⟩
    · exact hy (hhead.symm.trans hy')
    · rw [hy', Option.some.injEq] at hd
      rw [← hd] at hb
      simp only [List.mem_cons, List.not_mem_nil, or_false] at hc
      rcases hc with rfl | rfl <;> cases hb
  · exact regex_uncomment h hne nofun hn

end

/-! ### The reader without comments -/

theorem isWord_of_isBlank {c : Char} (h : isBlank c = true) : isWord c = false := by
  rw [Bool.eq_false_iff]
  intro hw
  rw [isBlank_of_isWord hw] at h
  cases h

theorem isFlag_of_isBlank {c : Char} (h : isBlank c = true) : isFlag c = false := by
  rw [Bool.eq_false_iff]
  intro hf
  cases (isWord_of_isFlag hf).symm.trans (isWord_of_isBlank h)

theorem Reads.advance_of_comment {s : Reader} {c : Char} {r : List Char} {o : Lexeme × Reader}
    (h : Reads s c r o) (hk : o.1.kind = .comment) : o.2 = s.advance o.1.text := by
  cases h with
  | line u => rfl
  | block u => rfl
  | _ => cases hk

theorem Reader.next_of_isBlank (s : Reader) {c : Char} (h : isBlank c = true) (r : List Char) :
    s.next c r = (⟨.code, [c], r⟩, s.advance [c]) := by
  have hne : ∀ d, isBlank d = false → c ≠ d := by
    rintro d hd rfl
    rw [h] at hd
    cases hd
  have hread : Reads s c r (s.code c r) := by
    refine .mark fun d hd => hne d ?_
    simp only [List.mem_cons, List.not_mem_nil, or_false] at hd
    rcases hd with rfl | rfl | rfl | rfl | rfl | rfl <;> decide
  rw [hread.next_eq, Reader.code, if_pos h]
  rfl

theorem tokens_blanks (s : Reader) {bs : List Char} (hbs : ∀ c ∈ bs, isBlank c = true)
    (y : List Char) :
    tokens s (bs ++ y) = (bs.map fun c => ⟨.code, [c]⟩) ++ tokens (s.advance bs) y := by
  induction bs generalizing s with
  | nil => rfl
  | cons c bs ih =>
    obtain ⟨hc, hbs⟩ := List.forall_mem_cons.1 hbs
    have hw := isWord_of_isBlank hc
    have hadvance : (s.advance [c]).advance bs = s.advance (c :: bs) := by simp [Reader.advance]
    rw [List.cons_append, tokens_of_not_isWord s hw, s.next_of_isBlank hc, ih _ hbs, hadvance]
    rfl

/-- A comment that something follows on its line is closed. -/
theorem CommentCut.getLast? {t y : List Char} (h : CommentCut t y) {d : Char}
    (hd : y.head? = some d) (hn : d ≠ '\n') : t.getLast? = some '/' := by
  cases h with
  | line u => exact absurd (head?_lineComment u d hd) hn
  | block u =>
    refine getLast?_cons_of_eq_some (getLast?_cons_of_eq_some (getLast?_blockComment ?_))
    intro hnil
    rw [hnil] at hd
    cases hd

/-- The readers after a comment and the spaces for it. -/
theorem Level.comment {before : List Mark} {t bs y : List Char} {s s' : Reader}
    (h : Level before (t ++ y) s s') (hcut : CommentCut t y) (hne : bs ≠ [])
    (hbs : ∀ c ∈ bs, isBlank c = true) (hseam : Seam ⟨.comment, t⟩ y) :
    Level ((Piece.marks ⟨.comment, t⟩).reverse ++ before) y (s.advance t) (s'.advance bs) := by
  obtain ⟨u, hu⟩ := List.head?_eq_some_iff.1 hcut.head?
  obtain ⟨b, bs', hb⟩ := List.exists_cons_of_ne_nil (mt List.reverse_eq_nil_iff.1 hne)
  have hblank : isBlank b = true := hbs b (by rw [← List.mem_reverse, hb]; exact List.mem_cons_self ..)
  have hclosed : ∀ d, y.head? = some d → d ≠ '\n' → ∃ v, t.reverse = '/' :: v := by
    intro d hd hn
    rw [← List.head?_eq_some_iff, List.head?_reverse]
    exact hcut.getLast? hd hn
  refine h.after .comment rfl h.opened (fun hy => ?_) (.inr ?_) ?_ hseam
  · obtain ⟨v, hv⟩ := hclosed _ hy (by decide)
    simp only [Reader.advance, hb, hv, List.cons_append, List.head?_cons, Option.some.injEq]
    refine iff_of_false ?_ (by decide)
    rintro rfl
    cases hblank
  · refine h.operand_eq ?_
    rw [hu]
    exact not_separates_of_ne (by decide) (by decide)
  · rintro ⟨d, hd, hw⟩
    obtain ⟨v, hv⟩ := hclosed d hd (by rintro rfl; cases hw)
    have hb' : isIdentifier b = false := by
      rw [Bool.eq_false_iff]
      intro hi
      cases (isWord_of_isIdentifier hi).symm.trans (isWord_of_isBlank hblank)
    have hslash : isIdentifier '/' = false := rfl
    simp only [Reader.advance, hb, hv, List.cons_append]
    rw [List.takeWhile_cons_of_neg (by simp [hb']), List.takeWhile_cons_of_neg (by simp [hslash])]

/-- A regular expression takes no letter when none follows it. -/
theorem WellCut.absorb_eq {p : Piece} {ps : List Piece} (h : WellCut ps)
    (hf : ∀ c ∈ (textOf ps).head?, isFlag c = false) : p.absorb ps = p :: ps := by
  have hcode : ∀ {c w ps}, (∀ d ∈ (textOf (⟨.code, c :: w⟩ :: ps)).head?, isFlag d = false) →
      p.absorb (⟨.code, c :: w⟩ :: ps) = p :: ⟨.code, c :: w⟩ :: ps :=
    fun hf => Piece.absorb_of_isFlag (hf _ rfl) _ _
  cases h with
  | nil => rfl
  | word hne =>
    obtain ⟨c, w, rfl⟩ := List.exists_cons_of_ne_nil hne
    exact hcode hf
  | mark => exact hcode hf
  | other hk => exact Piece.absorb_of_kind hk _

/-- The first character of a text without comments is of no class that blanks are not of and the
first character of the text is not of. -/
theorem of_head?_uncomment {a : List Char} {ps : List Piece} {f : Char → Bool} (h : Loose a ps)
    (hne : ∀ p ∈ ps, p.text ≠ []) (hf : ∀ c, isBlank c = true → f c = false)
    (hps : ∀ c ∈ (textOf ps).head?, f c = false) :
    ∀ c ∈ (textOf (uncomment ps)).head?, f c = false := by
  intro c hc
  rcases head?_uncomment h hne with he | ⟨-, d, hd, hb⟩
  · exact hps c (he ▸ hc)
  · rw [Option.mem_def, hd, Option.some.injEq] at hc
    exact hf c (hc ▸ hb)

/-- **The text without comments is read as the tokens without comments.** -/
theorem tokens_uncomment {before : List Mark} {cs : List Char} {s s' : Reader}
    (h : Level before cs s s') (hloose : Loose s.before.reverse (tokens s cs)) :
    tokens s' (textOf (uncomment (tokens s cs))) = uncomment (tokens s cs) := by
  fun_induction tokens s cs generalizing before s' with
  | case1 => exact tokens_nil s'
  | case2 s c r hc ih =>
    have hall : ∀ d ∈ c :: r.takeWhile isWord, isWord d = true :=
      List.forall_mem_cons.2 ⟨hc, List.all_eq_true.1 List.all_takeWhile⟩
    have hnext : ∀ d ∈ (r.dropWhile isWord).head?, isWord d = false := head?_dropWhile
    have hcs : c :: r = (c :: r.takeWhile isWord) ++ r.dropWhile isWord := by simp
    rw [hcs] at h
    have htail : Loose (s.word (c :: r.takeWhile isWord)).before.reverse
        (tokens (s.word (c :: r.takeWhile isWord)) (r.dropWhile isWord)) := by
      simpa [Reader.word] using hloose.tail
    have hnext' := of_head?_uncomment htail (wellCut_tokens _ _).text_ne_nil
      (fun _ => isWord_of_isBlank) (by rwa [textOf_tokens])
    rw [uncomment_cons, Piece.uncomment_of_ne (by simp), List.singleton_append, textOf_cons,
      tokens_word_append s' (List.cons_ne_nil _ _) hall hnext',
      ih (h.word_same (List.cons_ne_nil _ _) hall hnext) htail]
  | case3 s c r hc ih =>
    rw [Bool.not_eq_true] at hc
    obtain ⟨t, ht⟩ := List.head?_eq_some_iff.1 (s.head?_text_next c r)
    have htext : (s.next c r).1.piece.text = c :: t := ht
    have hwhole := s.next_whole c r
    have htail : Loose (s.next c r).2.before.reverse
        (tokens (s.next c r).2 (s.next c r).1.rest) := by
      rw [(s.reads_next c r).next_before]
      rw [List.reverse_append, List.reverse_reverse]
      exact hloose.tail
    have hne := (wellCut_tokens (s.next c r).2 (s.next c r).1.rest).text_ne_nil
    have hahead := ahead_uncomment htail hne
    rw [textOf_tokens] at hahead
    rw [uncomment_cons, textOf_append, Piece.textOf_uncomment]
    by_cases hk : (s.next c r).1.piece.kind = .comment
    · have hcut := hloose.cut [] _ _ rfl hk
      rw [textOf_tokens] at hcut
      have hbare : (s.next c r).1.piece.bare ≠ [] :=
        Piece.bare_ne_nil (by rw [htext]; exact List.cons_ne_nil _ _)
      rw [← hwhole] at h
      have hlevel := h.comment hcut hbare (isBlank_of_mem_bare hk) (hk ▸ s.seam_next hc r)
      rw [← (s.reads_next c r).advance_of_comment hk] at hlevel
      rw [tokens_blanks s' (isBlank_of_mem_bare hk), ih hlevel htail, Piece.uncomment, if_pos hk]
    · rw [Piece.bare_of_ne hk, Piece.uncomment_of_ne hk, htext, List.singleton_append,
        List.cons_append]
      cases hregex : (s.next c r).1.piece.isRegex with
      | true =>
        obtain ⟨s₁', hnext, hlevel⟩ := next_regex h hc hregex ht
        have hseam := (s.seam_next hc r).of_isRegex hregex
        have hletter : ∀ d ∈ (textOf (uncomment (tokens (s.next c r).2 (s.next c r).1.rest))).head?,
            isFlag d = false :=
          of_head?_uncomment htail hne (fun _ => isFlag_of_isBlank) (by rwa [textOf_tokens])
        have hcut := wellCut_tokens s₁'
          (textOf (uncomment (tokens (s.next c r).2 (s.next c r).1.rest)))
        rw [ih hlevel htail] at hcut
        rw [hnext, ih hlevel htail, hcut.absorb_eq hletter]
      | false =>
        obtain ⟨s₁', hnext, hlevel⟩ := next_same h hc hahead hregex ht
        rw [tokens_of_not_isWord s' hc, hnext, ih hlevel htail, Lexeme.piece, Lexeme.piece, ht]

/-- A source without its comments is read as its tokens without comments. -/
theorem tokensOf_uncomment {source : List Char} (h : Loose [] (tokensOf source)) :
    tokensOf (textOf (uncomment (tokensOf source))) = uncomment (tokensOf source) :=
  tokens_uncomment ⟨rfl, rfl, fun _ => Iff.rfl, .inr rfl, fun _ => rfl, seamed_nil _⟩ h

end Source

end Renaming
