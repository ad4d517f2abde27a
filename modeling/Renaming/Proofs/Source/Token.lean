import Renaming.Source.Fragment

/-!
The tokens of a source: each word of the code is one token, and each other lexeme is one.

* `fragments_lexemes`: the fragments of a source can be read off its tokens, one after the other.
* `join_lexemes`: so can its pieces.
* `wellCut_tokens`: words are as long as possible, and the code between them goes character by
  character.
-/

namespace Renaming.Source

open Renaming.Text (isBlank)

/-! ### Words and the reader -/

theorem isAlpha_iff {c : Char} : c.isAlpha = true ↔
    (65 ≤ c.toNat ∧ c.toNat ≤ 90) ∨ (97 ≤ c.toNat ∧ c.toNat ≤ 122) := by
  have h : c.isAlpha = (decide (c.val ≥ 'A'.val ∧ c.val ≤ 'Z'.val) ||
    (decide (c.val ≥ 'a'.val) && decide (c.val ≤ 'z'.val))) := rfl
  rw [h]
  simp only [Bool.or_eq_true, Bool.and_eq_true, decide_eq_true_eq, ge_iff_le,
    UInt32.le_iff_toNat_le]
  exact Iff.rfl

theorem isBlank_of_isWord {c : Char} (h : isWord c = true) : isBlank c = false := by
  rw [Bool.eq_false_iff]
  intro hb
  simp only [isBlank, Bool.or_eq_true, beq_iff_eq] at hb
  rcases hb with (((hb | hb) | hb) | hb) | hb <;> subst hb <;> revert h <;> decide

namespace Reader

/-- The reader after a word of the code. -/
def word (s : Reader) (w : List Char) : Reader :=
  { s with last := w.reverse ++ s.before, before := w.reverse ++ s.before }

theorem word_word (s : Reader) (a b : List Char) : (s.word a).word b = s.word (a ++ b) := by
  simp [word]

theorem word_nil {s : Reader} (h : s.last = s.before) : s.word [] = s := by
  cases s
  simp_all [word]

theorem next_of_isWord (s : Reader) {c : Char} (h : isWord c = true) (r : List Char) :
    s.next c r = (⟨.code, [c], r⟩, s.word [c]) := by
  have hne : ∀ d : Char, isWord d = false → c ≠ d := by
    rintro d hd rfl
    rw [h] at hd
    cases hd
  have hcode : s.next c r = s.code c r := by
    unfold next
    split
    case h_9 => rfl
    all_goals exact absurd h (by decide)
  rw [hcode, code, isBlank_of_isWord h]
  rfl

/-- A lexeme starts with the character that it was read at. -/
theorem head?_text_next (s : Reader) (c : Char) (r : List Char) :
    (s.next c r).1.text.head? = some c := by
  have h := s.next_whole c r
  cases ht : (s.next c r).1.text with
  | nil => exact absurd ht (s.next_text_ne_nil c r)
  | cons d u =>
    rw [ht, List.cons_append, List.cons.injEq] at h
    rw [List.head?_cons, h.1]

theorem isWord_next_iff (s : Reader) (c : Char) (r : List Char) :
    (s.next c r).1.isWord = true ↔ isWord c = true := by
  constructor
  · intro h
    simp only [Lexeme.isWord, Bool.and_eq_true, List.all_eq_true] at h
    exact h.2 c (List.mem_of_mem_head? (s.head?_text_next c r))
  · intro h
    rw [s.next_of_isWord h]
    simp [Lexeme.isWord, h]

end Reader

/-! ### Tokens -/

/-- The text of pieces, one after the other. -/
def textOf (ps : List Piece) : List Char := ps.flatMap Piece.text

@[simp] theorem textOf_nil : textOf [] = [] := rfl

@[simp] theorem textOf_cons (p : Piece) (ps : List Piece) :
    textOf (p :: ps) = p.text ++ textOf ps := rfl

@[simp] theorem textOf_append (ps qs : List Piece) :
    textOf (ps ++ qs) = textOf ps ++ textOf qs := by
  simp [textOf]

/-- A lexeme without what follows it. -/
def Lexeme.piece (l : Lexeme) : Piece := ⟨l.kind, l.text⟩

/-- The tokens of a text, read from the state `s` on. -/
def tokens (s : Reader) : List Char → List Piece
  | [] => []
  | c :: r =>
    if isWord c then
      ⟨.code, c :: r.takeWhile isWord⟩ ::
        tokens (s.word (c :: r.takeWhile isWord)) (r.dropWhile isWord)
    else
      (s.next c r).1.piece :: tokens (s.next c r).2 (s.next c r).1.rest
termination_by cs => cs.length
decreasing_by
  · exact Nat.lt_succ_of_le (List.dropWhile_sublist _).length_le
  · exact s.next_rest_length_lt c r

/-- The tokens of a source. -/
def tokensOf (source : List Char) : List Piece := tokens .start source

theorem tokens_nil (s : Reader) : tokens s [] = [] := by simp [tokens]

theorem tokens_of_isWord (s : Reader) {c : Char} (h : isWord c = true) (r : List Char) :
    tokens s (c :: r) = ⟨.code, c :: r.takeWhile isWord⟩ ::
      tokens (s.word (c :: r.takeWhile isWord)) (r.dropWhile isWord) := by
  rw [tokens, if_pos h]

theorem tokens_of_not_isWord (s : Reader) {c : Char} (h : isWord c = false) (r : List Char) :
    tokens s (c :: r) =
      (s.next c r).1.piece :: tokens (s.next c r).2 (s.next c r).1.rest := by
  rw [tokens, if_neg (by simp [h])]

theorem tokens_word_append {w y : List Char} (s : Reader) (hne : w ≠ [])
    (hw : ∀ c ∈ w, isWord c = true) (hy : ∀ c ∈ y.head?, isWord c = false) :
    tokens s (w ++ y) = ⟨.code, w⟩ :: tokens (s.word w) y := by
  obtain ⟨c, t, rfl⟩ := List.exists_cons_of_ne_nil hne
  have ht : ∀ d ∈ t, isWord d = true := fun d hd => hw d (List.mem_cons_of_mem _ hd)
  have htail : y.takeWhile isWord = [] ∧ y.dropWhile isWord = y := by
    cases y with
    | nil => simp
    | cons d y => simp [hy d rfl]
  rw [List.cons_append, tokens_of_isWord s (hw c (List.mem_cons_self ..)),
    List.takeWhile_append_of_pos ht, List.dropWhile_append_of_pos ht, htail.1, htail.2,
    List.append_nil]

/-- The texts of the tokens, one after the other, are the source. -/
theorem textOf_tokens (s : Reader) (cs : List Char) : textOf (tokens s cs) = cs := by
  fun_induction tokens s cs with
  | case1 => rfl
  | case2 s c r hc ih =>
    rw [textOf_cons, ih]
    simp [List.takeWhile_append_dropWhile]
  | case3 s c r hc ih => rw [textOf_cons, ih]; exact s.next_whole c r

/-! ### Lexemes and tokens -/

/-- The word that the text `r` starts with, as lexemes. -/
theorem lexemes_word {s : Reader} (h : s.last = s.before) (r : List Char) :
    ((lexemes s r).takeWhile Lexeme.isWord).map Lexeme.piece =
        (r.takeWhile isWord).map (fun c => ⟨.code, [c]⟩) ∧
      (lexemes s r).dropWhile Lexeme.isWord =
        lexemes (s.word (r.takeWhile isWord)) (r.dropWhile isWord) := by
  induction r generalizing s with
  | nil => simp [lexemes_nil]
  | cons c r ih =>
    by_cases hc : isWord c = true
    · have hw : Lexeme.isWord ⟨.code, [c], r⟩ = true := by simp [Lexeme.isWord, hc]
      obtain ⟨h1, h2⟩ := ih (s := s.word [c]) rfl
      rw [lexemes_cons, s.next_of_isWord hc, List.takeWhile_cons_of_pos hw,
        List.dropWhile_cons_of_pos hw, List.takeWhile_cons_of_pos hc, List.dropWhile_cons_of_pos hc,
        List.map_cons, h1, h2, s.word_word]
      exact ⟨rfl, rfl⟩
    · have hw : ¬ (s.next c r).1.isWord = true := fun h' => hc ((s.isWord_next_iff c r).1 h')
      rw [lexemes_cons, List.takeWhile_cons_of_neg hw, List.dropWhile_cons_of_neg hw,
        List.takeWhile_cons_of_neg hc, List.dropWhile_cons_of_neg hc, s.word_nil h, lexemes_cons]
      exact ⟨rfl, rfl⟩

theorem remaining_lexemes (s : Reader) (cs : List Char) : remaining (lexemes s cs) = cs := by
  cases cs with
  | nil => rw [lexemes_nil]; rfl
  | cons c r => rw [lexemes_cons]; exact s.next_whole c r

/-! ### Fragments of tokens -/

namespace Piece

/-- Whether a token is a word of the code. -/
def isWord (p : Piece) : Bool := p.kind == .code && p.text.all Source.isWord

/-- The characters of a piece, marked. -/
def marks (p : Piece) : List Mark := p.text.map (⟨·, p.kind = .code⟩)

@[simp] theorem map_char_marks (p : Piece) : p.marks.map Mark.char = p.text := by
  simp [marks, Function.comp_def]

/-- The fragments of a token between the marks `before` it and the text `after` it. -/
def fragments (before : List Mark) (after : List Char) (p : Piece) : List Fragment :=
  if p.isWord then
    if (p.text.head?.map Char.isDigit).getD true then [.kept p.text]
    else [.place ⟨String.ofList p.text, true, before, after⟩]
  else
    match p.content? with
    | some content =>
      [.kept (p.text.take 1), .place ⟨String.ofList content, false, before, after⟩,
        .kept (p.text.take 1)]
    | none => [.kept p.text]

end Piece

/-- The fragments of tokens that follow the marks `before`. -/
def placed (before : List Mark) : List Piece → List Fragment
  | [] => []
  | p :: ps => p.fragments before (textOf ps) ++ placed (p.marks.reverse ++ before) ps

theorem fragments_lexemes (before : List Mark) (s : Reader) (cs : List Char) :
    fragments before (lexemes s cs) = placed before (tokens s cs) := by
  fun_induction tokens s cs generalizing before with
  | case1 => rw [lexemes_nil]; simp [Source.fragments, placed]
  | case2 s c r hc ih =>
    obtain ⟨h1, h2⟩ := lexemes_word (s := s.word [c]) rfl r
    have hrun : ∀ {α : Type} (f : Piece → List α),
        ((lexemes (s.word [c]) r).takeWhile Lexeme.isWord).flatMap (f ∘ Lexeme.piece) =
          (r.takeWhile isWord).flatMap fun d => f ⟨.code, [d]⟩ := by
      intro α f
      have := congrArg (List.flatMap f) h1
      rwa [List.flatMap_map, List.flatMap_map] at this
    have htext : ((lexemes (s.word [c]) r).takeWhile Lexeme.isWord).flatMap Lexeme.text =
        r.takeWhile isWord := by
      rw [show Lexeme.text = Piece.text ∘ Lexeme.piece from rfl, hrun]
      simp
    have hmarks : ((lexemes (s.word [c]) r).takeWhile Lexeme.isWord).flatMap Lexeme.marks =
        Piece.marks ⟨.code, r.takeWhile isWord⟩ := by
      rw [show Lexeme.marks = Piece.marks ∘ Lexeme.piece from rfl, hrun]
      simp [Piece.marks, List.map_eq_flatMap]
    have hword : Piece.isWord ⟨.code, c :: r.takeWhile isWord⟩ = true := by
      simp only [Piece.isWord, List.all_cons, hc, List.all_takeWhile]
      rfl
    rw [lexemes_cons, s.next_of_isWord hc, Source.fragments, if_pos (by simp [Lexeme.isWord, hc]),
      placed, Piece.fragments, if_pos hword, textOf_tokens]
    simp only [h2, s.word_word, List.singleton_append, remaining_lexemes, List.flatMap_cons, htext,
      hmarks, ih]
    split <;> rfl
  | case3 s c r hc ih =>
    have hw : ¬ (s.next c r).1.isWord = true := fun h' => hc ((s.isWord_next_iff c r).1 h')
    have hp : ¬ (s.next c r).1.piece.isWord = true := hw
    rw [lexemes_cons, Source.fragments, if_neg hw, ih, placed, Piece.fragments, if_neg hp,
      textOf_tokens]
    change _ = (match (s.next c r).1.content? with | some _ => _ | none => _) ++ _
    cases (s.next c r).1.content? <;> rfl

theorem fragmentsOf_eq_placed (source : List Char) :
    fragmentsOf source = placed [] (tokensOf source) :=
  fragments_lexemes [] .start source

/-! ### Pieces of tokens -/

/-- A token in front of pieces: code is joined to code. -/
def Piece.merge (p : Piece) : List Piece → List Piece
  | [] => [p]
  | q :: qs => if p.kind = .code ∧ q.kind = .code then ⟨.code, p.text ++ q.text⟩ :: qs else p :: q :: qs

theorem attach_eq_merge (l : Lexeme) (ps : List Piece) : Piece.attach l ps = l.piece.merge ps := by
  cases ps <;> rfl

theorem merge_merge (a b : List Char) (ps : List Piece) :
    Piece.merge ⟨.code, a⟩ (Piece.merge ⟨.code, b⟩ ps) = Piece.merge ⟨.code, a ++ b⟩ ps := by
  cases ps with
  | nil => simp [Piece.merge]
  | cons p ps => by_cases hp : p.kind = .code <;> simp [Piece.merge, hp]

/-- The tokens with adjacent code joined. -/
def mergeAll (ps : List Piece) : List Piece := ps.foldr Piece.merge []

theorem merge_foldr_word (c : Char) (w : List Char) (ps : List Piece) :
    Piece.merge ⟨.code, [c]⟩ ((w.map fun d => (⟨.code, [d]⟩ : Piece)).foldr Piece.merge ps) =
      Piece.merge ⟨.code, c :: w⟩ ps := by
  induction w generalizing c with
  | nil => rfl
  | cons d w ih => rw [List.map_cons, List.foldr_cons, ih, merge_merge]; rfl

theorem join_lexemes (s : Reader) (cs : List Char) : join (lexemes s cs) = mergeAll (tokens s cs) := by
  have hjoin : ∀ ls, join ls = (ls.map Lexeme.piece).foldr Piece.merge [] := by
    intro ls
    rw [join, List.foldr_map]
    exact congrArg (fun f => List.foldr f [] ls) 
      (funext fun l => funext fun ps => attach_eq_merge l ps)
  rw [hjoin]
  fun_induction tokens s cs with
  | case1 => rw [lexemes_nil]; rfl
  | case2 s c r hc ih =>
    obtain ⟨h1, h2⟩ := lexemes_word (s := s.word [c]) rfl r
    rw [lexemes_cons, s.next_of_isWord hc,
      ← List.takeWhile_append_dropWhile (p := Lexeme.isWord) (l := lexemes (s.word [c]) r)]
    rw [List.map_cons, List.map_append, h1, h2, s.word_word, List.foldr_cons, List.foldr_append]
    exact (merge_foldr_word c _ _).trans (congrArg (Piece.merge _) ih)
  | case3 s c r hc ih =>
    rw [lexemes_cons, List.map_cons, List.foldr_cons, ih]
    rfl

theorem pieces_eq_mergeAll (source : List Char) : pieces source = mergeAll (tokensOf source) :=
  join_lexemes .start source

/-! ### Words and lexemes -/

theorem isWord_piece {w : List Char} (h : ∀ c ∈ w, isWord c = true) :
    Piece.isWord ⟨.code, w⟩ = true := by
  simpa [Piece.isWord] using h

/-- A token that is no word is a lexeme that a reader takes. -/
theorem exists_next_of_tokens {s : Reader} {cs : List Char} {xs : List Piece} {q : Piece}
    {ys : List Piece} (h : tokens s cs = xs ++ q :: ys) (hq : q.isWord = false) :
    ∃ s' c r, isWord c = false ∧ (Reader.next s' c r).1.piece = q ∧
      (Reader.next s' c r).1.rest = textOf ys := by
  fun_induction tokens s cs generalizing xs with
  | case1 => simp at h
  | case2 s c r hc ih =>
    rcases xs with _ | ⟨x, xs⟩
    · obtain ⟨rfl, -⟩ := List.cons.inj h
      rw [isWord_piece] at hq
      · cases hq
      · exact List.forall_mem_cons.2 ⟨hc, fun d hd => List.all_eq_true.1 List.all_takeWhile d hd⟩
    · exact ih (List.cons.inj h).2
  | case3 s c r hc ih =>
    rcases xs with _ | ⟨x, xs⟩
    · obtain ⟨rfl, rfl⟩ := List.cons.inj h
      exact ⟨s, c, r, by simpa using hc, rfl, (textOf_tokens _ _).symm⟩
    · exact ih (List.cons.inj h).2

/-! ### How comments and literals end -/

theorem head?_dropWhile {p : Char → Bool} {cs : List Char} :
    ∀ c ∈ (cs.dropWhile p).head?, p c = false := by
  intro c hc
  have h := List.head?_dropWhile_not p cs
  rw [Option.mem_def] at hc
  rw [hc] at h
  simpa using h

theorem getLast?_cons_of_eq_some {c z : Char} {t : List Char} (h : t.getLast? = some z) :
    (c :: t).getLast? = some z := by
  rw [List.getLast?_cons, h]
  rfl

theorem head?_lineComment (r : List Char) : ∀ d ∈ (lineComment r).rest.head?, d = '\n' := by
  induction r with
  | nil => simp [lineComment]
  | cons c r ih =>
    unfold lineComment
    split
    · next h => simp [h]
    · exact ih

theorem getLast?_blockComment {r : List Char} (h : (blockComment r).rest ≠ []) :
    (blockComment r).text.getLast? = some '/' := by
  fun_induction blockComment r with
  | case1 => simp at h
  | case2 => rfl
  | case3 c r _ ih => exact getLast?_cons_of_eq_some (ih h)

theorem getLast?_quoted {q : Char} {e : Bool} {r : List Char} (h : (quoted q e r).rest ≠ []) :
    (quoted q e r).rest.head? = some '\n' ∨ (quoted q e r).text.getLast? = some q := by
  fun_induction quoted q e r with
  | case1 => simp at h
  | case2 c r ih => exact (ih h).imp id getLast?_cons_of_eq_some
  | case3 r ih => exact (ih h).imp id getLast?_cons_of_eq_some
  | case4 => exact .inl rfl
  | case5 => exact .inr rfl
  | case6 c r _ _ _ ih => exact (ih h).imp id getLast?_cons_of_eq_some

/-- A piece of a template ends in a backtick or in the opening of a substitution. -/
theorem getLast?_template (e : Bool) (r : List Char) :
    ((template e r).2 = true → (template e r).1.text.getLast? = some '{') ∧
      ((template e r).2 = false → (template e r).1.rest ≠ [] →
        (template e r).1.text.getLast? = some '\x60') := by
  have hpush : ∀ {c : Char} {s : Cut} {b : Bool}, ((b = true → s.text.getLast? = some '{') ∧
      (b = false → s.rest ≠ [] → s.text.getLast? = some '\x60')) →
      (b = true → (s.push c).text.getLast? = some '{') ∧
        (b = false → (s.push c).rest ≠ [] → (s.push c).text.getLast? = some '\x60') :=
    fun ⟨h1, h2⟩ => ⟨fun hb => getLast?_cons_of_eq_some (h1 hb),
      fun hb hr => getLast?_cons_of_eq_some (h2 hb hr)⟩
  fun_induction template e r with
  | case1 => exact ⟨fun hb => (Bool.false_ne_true hb).elim, fun _ hr => absurd rfl hr⟩
  | case2 c r s b hs ih => rw [hs] at ih; exact hpush ih
  | case3 r s b hs ih => rw [hs] at ih; exact hpush ih
  | case4 => exact ⟨fun hb => (Bool.false_ne_true hb).elim, fun _ _ => rfl⟩
  | case5 => exact ⟨fun _ => rfl, fun hb => (Bool.false_ne_true hb.symm).elim⟩
  | case6 c r _ s b hs _ _ ih => rw [hs] at ih; exact hpush ih

theorem regex_eq {e k : Bool} {r : List Char} {cut : Cut} (h : regex e k r = some cut) :
    ∃ t f, cut.text = t ++ '/' :: f ∧ (∀ c ∈ f, isFlag c = true) ∧
      ∀ d ∈ cut.rest.head?, isFlag d = false := by
  have hpush : ∀ {c : Char} {t : Cut}, (∃ u f, t.text = u ++ '/' :: f ∧ (∀ c ∈ f, isFlag c = true) ∧
      ∀ d ∈ t.rest.head?, isFlag d = false) → ∃ u f, (t.push c).text = u ++ '/' :: f ∧
      (∀ c ∈ f, isFlag c = true) ∧ ∀ d ∈ (t.push c).rest.head?, isFlag d = false := by
    rintro c t ⟨u, f, ht, h⟩
    exact ⟨c :: u, f, congrArg (c :: ·) ht, h⟩
  fun_induction regex e k r generalizing cut with
  | case1 => simp at h
  | case2 k c r ih => obtain ⟨t, ht, rfl⟩ := Option.map_eq_some_iff.1 h; exact hpush (ih ht)
  | case3 k r ih => obtain ⟨t, ht, rfl⟩ := Option.map_eq_some_iff.1 h; exact hpush (ih ht)
  | case4 => simp at h
  | case5 k r _ _ ih => obtain ⟨t, ht, rfl⟩ := Option.map_eq_some_iff.1 h; exact hpush (ih ht)
  | case6 k r _ _ _ ih => obtain ⟨t, ht, rfl⟩ := Option.map_eq_some_iff.1 h; exact hpush (ih ht)
  | case7 k c r _ _ _ _ hc =>
    obtain rfl := Option.some.inj h
    obtain ⟨rfl, -⟩ : c = '/' ∧ k = false := by simpa using hc
    exact ⟨[], _, rfl, fun d hd => List.all_eq_true.1 List.all_takeWhile d hd, head?_dropWhile⟩
  | case8 k c r _ _ _ _ _ ih =>
    obtain ⟨t, ht, rfl⟩ := Option.map_eq_some_iff.1 h
    exact hpush (ih ht)

/-- Whether a piece is a regular expression: no other literal opens with a slash. -/
def Piece.isRegex (p : Piece) : Bool := p.kind == .literal && p.text.head? == some '/'

/-- No letter follows the piece, or the piece neither is a regular expression nor ends in a
character of a word. -/
def Seam (p : Piece) (rest : List Char) : Prop :=
  (∀ d ∈ rest.head?, isFlag d = false) ∨
    p.isRegex = false ∧ ∃ z, p.text.getLast? = some z ∧ isWord z = false

/-- A regular expression ends in its closing slash or in a letter. -/
def Piece.EndsRegex (p : Piece) : Prop :=
  p.isRegex = true → ∃ z, p.text.getLast? = some z ∧ (z = '/' ∨ Source.isWord z = true)

/-- No letter follows the marks `before` when they end in a character of a word. -/
def Seamed (before : List Mark) (rest : List Char) : Prop :=
  (∃ m ∈ before.head?, isWord m.char = true) → ∀ d ∈ rest.head?, isFlag d = false

theorem seamed_nil (rest : List Char) : Seamed [] rest := by
  rintro ⟨m, hm, -⟩
  cases hm

theorem Piece.head?_marks {p : Piece} {z : Char} (h : p.text.getLast? = some z) (b : List Mark) :
    (p.marks.reverse ++ b).head? = some ⟨z, p.kind = .code⟩ := by
  simp [Piece.marks, List.head?_append, List.head?_reverse, List.getLast?_map, h]

theorem Seam.seamed {p : Piece} {rest : List Char} (h : Seam p rest) (b : List Mark) :
    Seamed (p.marks.reverse ++ b) rest := by
  rintro ⟨m, hm, hw⟩
  rcases h with hs | ⟨-, z, hz, hz'⟩
  · exact hs
  · rw [Piece.head?_marks hz, Option.mem_def, Option.some.injEq] at hm
    rw [← hm, hz'] at hw
    cases hw

theorem seam_of_ne_nil {p : Piece} {rest : List Char} (hp : p.isRegex = false) (h : rest ≠ [] →
    ∃ z, p.text.getLast? = some z ∧ isWord z = false) : Seam p rest := by
  by_cases hr : rest = []
  · exact .inl (by simp [hr])
  · exact .inr ⟨hp, h hr⟩

/-- No letter follows a token that ends in a character of a word, unless the token is a word. -/
theorem Reader.seam_next (s : Reader) {c : Char} (hc : isWord c = false) (r : List Char) :
    Seam (s.next c r).1.piece (s.next c r).1.rest := by
  have hquoted : ∀ q r, isWord q = false → q ≠ '/' →
      Seam ⟨.literal, q :: (quoted q false r).text⟩ (quoted q false r).rest := by
    intro q r hq hne
    by_cases hr : (quoted q false r).rest = []
    · exact .inl (by simp [hr])
    · rcases getLast?_quoted hr with hn | hz
      · exact .inl (by rw [hn]; simp [isFlag])
      · exact .inr ⟨by simp [Piece.isRegex, hne], q, getLast?_cons_of_eq_some hz, hq⟩
  have htemplate : ∀ d r, d ≠ '/' →
      Seam ⟨.literal, d :: (template false r).1.text⟩ (template false r).1.rest := by
    intro d r hne
    obtain ⟨h1, h2⟩ := getLast?_template false r
    refine seam_of_ne_nil (by simp [Piece.isRegex, hne]) fun hr => ?_
    cases hb : (template false r).2 with
    | true => exact ⟨'{', getLast?_cons_of_eq_some (h1 hb), by decide⟩
    | false => exact ⟨'\x60', getLast?_cons_of_eq_some (h2 hb hr), by decide⟩
  unfold Reader.next
  split
  · refine .inl fun d hd => ?_
    rw [head?_lineComment _ d hd]
    decide
  · exact seam_of_ne_nil rfl fun hr => ⟨'/', getLast?_cons_of_eq_some (getLast?_cons_of_eq_some
      (getLast?_blockComment hr)), by decide⟩
  · split
    · split
      · next cut hcut =>
        obtain ⟨t, f, -, -, hrest⟩ := regex_eq hcut
        exact .inl hrest
      · exact .inr ⟨rfl, '/', rfl, hc⟩
    · exact .inr ⟨rfl, '/', rfl, hc⟩
  · exact hquoted _ _ hc (by decide)
  · exact hquoted _ _ hc (by decide)
  · exact htemplate _ _ (by decide)
  · exact .inr ⟨rfl, '{', rfl, hc⟩
  · split
    · exact htemplate _ _ (by decide)
    · exact .inr ⟨rfl, '}', rfl, hc⟩
  · exact .inr ⟨rfl, _, rfl, hc⟩

theorem isWord_of_isFlag {c : Char} (h : isFlag c = true) : isWord c = true := by
  unfold isFlag at h
  simp [isWord, isIdentifier, Char.isAlphanum, h]

theorem Reader.endsRegex_next (s : Reader) (c : Char) (r : List Char) :
    (s.next c r).1.piece.EndsRegex := by
  unfold Reader.next
  split <;> (try split) <;> (try split) <;> intro h <;> try cases h
  next cut hcut =>
    obtain ⟨t, f, ht, hf, -⟩ := regex_eq hcut
    rcases List.eq_nil_or_concat f with rfl | ⟨f, z, rfl⟩
    · exact ⟨'/', by simp [Reader.expression, Lexeme.piece, ht, List.getLast?_cons], .inl rfl⟩
    · exact ⟨z, by simp [Reader.expression, Lexeme.piece, ht, List.getLast?_cons],
        .inr (isWord_of_isFlag (hf z (by simp)))⟩

/-! ### How tokens are cut -/

/-- The code is cut into words that are as long as possible and single characters between them. -/
inductive WellCut : List Piece → Prop
  | nil : WellCut []
  | word {w : List Char} {ps : List Piece} : w ≠ [] → (∀ c ∈ w, isWord c = true) →
      (∀ c ∈ (textOf ps).head?, isWord c = false) → WellCut ps → WellCut (⟨.code, w⟩ :: ps)
  | mark {c : Char} {ps : List Piece} : isWord c = false → WellCut ps → WellCut (⟨.code, [c]⟩ :: ps)
  | other {p : Piece} {ps : List Piece} : p.kind ≠ .code → p.text ≠ [] → Seam p (textOf ps) →
    p.EndsRegex → WellCut ps → WellCut (p :: ps)

theorem Reader.text_of_kind_code {s : Reader} {c : Char} {r : List Char}
    (h : (s.next c r).1.kind = .code) : (s.next c r).1.text = [c] := by
  revert h
  unfold Reader.next
  split <;> (try split) <;> (try split) <;>
    simp [Reader.comment, Reader.expression, Reader.code, Reader.string, Reader.piece]

theorem wellCut_tokens (s : Reader) (cs : List Char) : WellCut (tokens s cs) := by
  fun_induction tokens s cs with
  | case1 => exact .nil
  | case2 s c r hc ih =>
    refine .word (by simp) ?_ ?_ ih
    · intro d hd
      rcases List.mem_cons.1 hd with rfl | hd
      · exact hc
      · exact List.all_eq_true.1 List.all_takeWhile d hd
    · rw [textOf_tokens]
      exact head?_dropWhile
  | case3 s c r hc ih =>
    by_cases hk : (s.next c r).1.kind = .code
    · have hp : (s.next c r).1.piece = ⟨.code, [c]⟩ := by
        rw [Lexeme.piece, hk, Reader.text_of_kind_code hk]
      rw [hp]
      exact .mark (by simpa using hc) ih
    · refine .other hk (s.next_text_ne_nil c r) ?_ (s.endsRegex_next c r) ih
      rw [textOf_tokens]
      exact s.seam_next (by simpa using hc) r

theorem seam_of_isWord_head {p : Piece} {y : List Char} (hy : ∀ c ∈ y.head?, isWord c = false) :
    Seam p y := by
  refine .inl fun c hc => ?_
  rw [Bool.eq_false_iff]
  intro hf
  have hw := hy c hc
  rw [isWord_of_isFlag hf] at hw
  cases hw

namespace WellCut

variable {p : Piece} {ps : List Piece}

/-- No character of a word follows a word. -/
theorem next (h : WellCut (p :: ps)) (hp : p.isWord = true) :
    ∀ c ∈ (textOf ps).head?, Source.isWord c = false := by
  cases h with
  | word _ _ hnext => exact hnext
  | mark hc => simp [Piece.isWord, hc] at hp
  | other hk => simp [Piece.isWord, hk] at hp

theorem seam (h : WellCut (p :: ps)) : Seam p (textOf ps) := by
  cases h with
  | word _ _ hnext => exact seam_of_isWord_head hnext
  | mark hc => exact .inr ⟨rfl, _, rfl, hc⟩
  | other _ _ hs => exact hs

theorem endsRegex (h : WellCut (p :: ps)) : p.EndsRegex := by
  cases h with
  | word => exact nofun
  | mark => exact nofun
  | other _ _ _ he => exact he

end WellCut

end Renaming.Source
