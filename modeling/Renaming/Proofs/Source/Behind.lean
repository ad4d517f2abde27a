import Renaming.Proofs.Source.Redraw

/-!
What precedes a place in a source with new names. `Behind` relates what precedes a place before
and after, and the tests that look back agree on it.

* `Behind.innermost` and `Behind.entryStarts`: brackets and entries of objects are the same.
* `Behind.attributeStarts` and `Behind.insideTag`: the tests of attributes are related by `L`, as
  the words are that they look at.
-/

namespace Renaming.Source

open Renaming.Text (isBlank)

/-! ### The nearest character -/

theorem skipBlankMarks_of_isBlank {m : Mark} (h : isBlank m.char = true) (ms : List Mark) :
    skipBlankMarks (m :: ms) = skipBlankMarks ms :=
  List.dropWhile_cons_of_pos h

theorem skipBlankMarks_of_not_isBlank {m : Mark} (h : isBlank m.char = false) (ms : List Mark) :
    skipBlankMarks (m :: ms) = m :: ms :=
  List.dropWhile_cons_of_neg (by simp [h])

theorem skipBlanks_append {u : List Char} (h : ∀ c ∈ u, isBlank c = true) (a : List Char) :
    skipBlanks (u ++ a) = skipBlanks a := by
  induction u with
  | nil => rfl
  | cons c u ih =>
    rw [List.cons_append, skipBlanks, List.dropWhile_cons_of_pos (h c (List.mem_cons_self ..))]
    exact ih fun d hd => h d (List.mem_cons_of_mem _ hd)

theorem untouched_of_isBlank {c : Char} (h : isBlank c = true) : c ≠ '/' ∧ isWord c = false := by
  simp only [isBlank, Bool.or_eq_true, beq_iff_eq] at h
  rcases h with (((rfl | rfl) | rfl) | rfl) | rfl <;> decide

/-- Neither a regular expression nor a word ends where an entry of an object starts. -/
theorem untouched_of_entryStarts {before : List Mark} (h : entryStarts before = true) :
    ∀ m ∈ before.head?, m.char ≠ '/' ∧ isWord m.char = false := by
  intro m hm
  obtain ⟨ms, rfl⟩ := List.head?_eq_some_iff.1 (Option.mem_def.1 hm)
  by_cases hb : isBlank m.char = true
  · exact untouched_of_isBlank hb
  · rw [entryStarts, skipBlankMarks_of_not_isBlank (by simpa using hb)] at h
    simp only [Bool.or_eq_true, Bool.and_eq_true, beq_iff_eq] at h
    rcases h with h | ⟨h | h, -⟩ <;> rw [h] <;> decide

/-- Neither a regular expression nor a word ends where an attribute starts. -/
theorem untouched_of_attributeStarts {before : List Mark} (h : attributeStarts before = true) :
    ∀ m ∈ before.head?, m.char ≠ '/' ∧ isWord m.char = false := by
  intro m hm
  obtain ⟨ms, rfl⟩ := List.head?_eq_some_iff.1 (Option.mem_def.1 hm)
  simp only [attributeStarts, Bool.and_eq_true] at h
  exact untouched_of_isBlank h.1

/-! ### Texts behind a place -/

/-- What tests of two texts say is related by `L`. -/
structure Coherent (L : Bool → Bool → Prop) : Prop where
  refl : ∀ b, L b b
  and : ∀ {a b c d}, L a b → L c d → L (a && c) (b && d)

/-- Two texts in front of a place, read from the place backwards, that differ in names and contents
of strings. The text `after` follows the first of them. -/
inductive Behind (L : Bool → Bool → Prop) : (after : List Char) → List Mark → List Mark → Prop
  | nil (after : List Char) : Behind L after [] []
  | same {after : List Char} (m : Mark) {ms ms' : List Mark} : Behind L (m.char :: after) ms ms' →
    Behind L after (m :: ms) (m :: ms')
  | word {after : List Char} {w w' : String} {ms ms' : List Mark} : IsName w.toList →
    IsName w'.toList → (Steady L w w' ∨ Separates after) →
    (∀ c ∈ after.head?, isWord c = false) →
    ((∃ m ∈ ms.head?, isWord m.char = true) → startsWithLetter w.toList = false) →
    Behind L (w.toList ++ after) ms ms' →
    Behind L after ((Piece.marks ⟨.code, w.toList⟩).reverse ++ ms)
      ((Piece.marks ⟨.code, w'.toList⟩).reverse ++ ms')
  | content {after : List Char} {q : Char} {m m' : List Char} {ms ms' : List Mark} :
    isQuote q = true → Behind L (q :: (m ++ [q]) ++ after) ms ms' →
    Behind L after ((Piece.marks ⟨.literal, q :: (m ++ [q])⟩).reverse ++ ms)
      ((Piece.marks ⟨.literal, q :: (m' ++ [q])⟩).reverse ++ ms')

/-- The marks of a name, from its last character to its first. -/
theorem exists_marks_name {w : List Char} (h : IsName w) (ms : List Mark) : ∃ m t,
    (Piece.marks ⟨.code, w⟩).reverse ++ ms = m :: t ∧ isIdentifier m.char = true := by
  obtain ⟨c, t, ht⟩ := List.exists_cons_of_ne_nil (mt List.reverse_eq_nil_iff.1 h.ne_nil)
  refine ⟨⟨c, true⟩, t.map (⟨·, true⟩) ++ ms, ?_, ?_⟩
  · rw [Piece.marks, ← List.map_reverse, ht]
    simp
  · exact h.isIdentifier c (by rw [← List.mem_reverse, ht]; exact List.mem_cons_self ..)

theorem marks_cons (k : Kind) (c : Char) (t : List Char) (ms : List Mark) :
    (Piece.marks ⟨k, c :: t⟩).reverse ++ ms =
      (Piece.marks ⟨k, t⟩).reverse ++ ⟨c, k = .code⟩ :: ms := by
  simp [Piece.marks]

/-- The marks of a string, from its last character to its first. -/
theorem marks_content (q : Char) (m : List Char) (ms : List Mark) :
    (Piece.marks ⟨.literal, q :: (m ++ [q])⟩).reverse ++ ms =
      ⟨q, false⟩ :: (m.reverse.map (⟨·, false⟩) ++ ⟨q, false⟩ :: ms) := by
  simp [Piece.marks]

theorem isBlank_of_isIdentifier {c : Char} (h : isIdentifier c = true) : isBlank c = false :=
  isBlank_of_isWord (isWord_of_isIdentifier h)

theorem isWord_of_isQuote {c : Char} (h : isQuote c = true) : isWord c = false := by
  simp only [isQuote, Bool.or_eq_true, beq_iff_eq] at h
  rcases h with (rfl | rfl) | rfl <;> decide

namespace Behind

variable {L : Bool → Bool → Prop} {after : List Char} {ms ms' : List Mark}

/-- The text `t` in front of a place is the same in both texts. -/
theorem marks (k : Kind) (t : List Char) (h : Behind L (t ++ after) ms ms') :
    Behind L after ((Piece.marks ⟨k, t⟩).reverse ++ ms) ((Piece.marks ⟨k, t⟩).reverse ++ ms') := by
  induction t generalizing ms ms' with
  | nil => exact h
  | cons c t ih =>
    rw [marks_cons, marks_cons]
    exact ih (.same ⟨c, k = .code⟩ h)

/-- Both texts end in the same character, or each of them in a name. -/
theorem head_cases (h : Behind L after ms ms') : (ms = [] ∧ ms' = []) ∨
    (∃ m t t', ms = m :: t ∧ ms' = m :: t') ∨
    ∃ m m' t t', ms = m :: t ∧ ms' = m' :: t' ∧ isIdentifier m.char = true ∧
      isIdentifier m'.char = true := by
  cases h with
  | nil => exact .inl ⟨rfl, rfl⟩
  | same m => exact .inr (.inl ⟨m, _, _, rfl, rfl⟩)
  | word hw hw' =>
    obtain ⟨m, t, hm, hc⟩ := exists_marks_name hw _
    obtain ⟨m', t', hm', hc'⟩ := exists_marks_name hw' _
    exact .inr (.inr ⟨m, m', t, t', hm, hm', hc, hc'⟩)
  | @content _ q m m' ms ms' =>
    rw [marks_content, marks_content]
    exact .inr (.inl ⟨_, _, _, rfl, rfl⟩)

theorem skipBlankMarks (h : Behind L after ms ms') : ∃ u, (∀ c ∈ u, isBlank c = true) ∧
    Behind L (u ++ after) (skipBlankMarks ms) (skipBlankMarks ms') := by
  induction h with
  | nil a => exact ⟨[], by simp, .nil a⟩
  | same m h ih =>
    by_cases hb : isBlank m.char = true
    · obtain ⟨u, hu, hbehind⟩ := ih
      rw [skipBlankMarks_of_isBlank hb, skipBlankMarks_of_isBlank hb]
      refine ⟨u ++ [m.char], ?_, by simpa using hbehind⟩
      intro c hc
      rcases List.mem_append.1 hc with hc | hc
      · exact hu c hc
      · rw [List.mem_singleton.1 hc, hb]
    · rw [Bool.not_eq_true] at hb
      rw [skipBlankMarks_of_not_isBlank hb, skipBlankMarks_of_not_isBlank hb]
      exact ⟨[], by simp, .same m h⟩
  | @word a w w' ms ms' hw hw' hk ha hl h ih =>
    refine ⟨[], by simp, ?_⟩
    have hsame := Behind.word hw hw' hk ha hl h
    obtain ⟨m, t, hm, hc⟩ := exists_marks_name hw ms
    obtain ⟨m', t', hm', hc'⟩ := exists_marks_name hw' ms'
    rw [hm, hm'] at hsame ⊢
    rwa [skipBlankMarks_of_not_isBlank (isBlank_of_isIdentifier hc),
      skipBlankMarks_of_not_isBlank (isBlank_of_isIdentifier hc')]
  | @content a q m m' ms ms' hq h ih =>
    have hsame : Behind L a (_ ++ ms) ((Piece.marks ⟨.literal, q :: (m' ++ [q])⟩).reverse ++ ms') :=
      .content hq h
    refine ⟨[], by simp, ?_⟩
    rw [marks_content, marks_content] at hsame ⊢
    have hb := isBlank_of_isQuote hq
    rwa [skipBlankMarks_of_not_isBlank hb, skipBlankMarks_of_not_isBlank hb]

/-! ### Brackets -/

theorem not_bracket_of_isIdentifier {c : Char} (h : isIdentifier c = true) :
    isCloser c = false ∧ isOpener c = false := by
  constructor
  all_goals
    rw [Bool.eq_false_iff]
    intro hc
    simp only [isCloser, isOpener, Bool.or_eq_true, beq_iff_eq] at hc
    rcases hc with (rfl | rfl) | rfl <;> cases h

theorem innermost_append {us : List Mark} (hus : ∀ m ∈ us, m.inCode = true →
    isCloser m.char = false ∧ isOpener m.char = false) (d : Nat) (ms : List Mark) :
    innermost d (us ++ ms) = innermost d ms := by
  induction us with
  | nil => rfl
  | cons m us ih =>
    have ih := ih fun m hm => hus m (List.mem_cons_of_mem _ hm)
    have hm := hus m (List.mem_cons_self ..)
    cases hc : m.inCode with
    | false => simpa [innermost, hc] using ih
    | true => simpa [innermost, hc, hm hc] using ih

theorem innermost_name {w : List Char} (hw : IsName w) (d : Nat) (ms : List Mark) :
    innermost d ((Piece.marks ⟨.code, w⟩).reverse ++ ms) = innermost d ms := by
  refine innermost_append (fun m hm _ => ?_) d ms
  rw [List.mem_reverse, Piece.marks, List.mem_map] at hm
  obtain ⟨c, hc, rfl⟩ := hm
  exact not_bracket_of_isIdentifier (hw.isIdentifier c hc)

/-- Brackets in literals and comments do not count. -/
theorem innermost_of_ne {k : Kind} (hk : k ≠ .code) (t : List Char) (d : Nat) (ms : List Mark) :
    innermost d ((Piece.marks ⟨k, t⟩).reverse ++ ms) = innermost d ms := by
  refine innermost_append (fun m hm hc => ?_) d ms
  rw [List.mem_reverse, Piece.marks, List.mem_map] at hm
  obtain ⟨c, -, rfl⟩ := hm
  exact absurd (of_decide_eq_true hc) hk

/-- **Brackets** are open in both texts or in neither. -/
theorem innermost (h : Behind L after ms ms') (d : Nat) : innermost d ms = innermost d ms' := by
  induction h generalizing d with
  | nil => rfl
  | same m _ ih => simp only [Source.innermost, ih]
  | word hw hw' _ _ _ _ ih => rw [innermost_name hw, innermost_name hw', ih]
  | content _ _ ih => rw [innermost_of_ne (by decide), innermost_of_ne (by decide), ih]

/-- **An entry of an object** starts behind both texts or behind neither. -/
theorem entryStarts (h : Behind L after ms ms') : entryStarts ms = entryStarts ms' := by
  obtain ⟨u, -, hs⟩ := h.skipBlankMarks
  rw [Source.entryStarts, Source.entryStarts, h.innermost]
  rcases hs.head_cases with ⟨h1, h2⟩ | ⟨m, t, t', h1, h2⟩ | ⟨m, m', t, t', h1, h2, hi, hi'⟩
  · rw [h1, h2]
  · rw [h1, h2]
  · have hne : ∀ {c : Char}, isIdentifier c = true →
        (c == '{') = false ∧ (c == ',') = false ∧ (c == ';') = false := by
      intro c hc
      refine ⟨?_, ?_, ?_⟩ <;> rw [beq_eq_false_iff_ne] <;> rintro rfl <;> cases hc
    obtain ⟨e1, e2, e3⟩ := hne hi
    obtain ⟨e1', e2', e3'⟩ := hne hi'
    simp [h1, h2, e1, e2, e3, e1', e2', e3']

/-! ### Words -/

/-- A word that goes on behind the place is the same in both texts. -/
theorem run_eq (h : Behind L after ms ms') (ha : ∃ c ∈ after.head?, isWord c = true) :
    (ms.map Mark.char).takeWhile isWord = (ms'.map Mark.char).takeWhile isWord := by
  induction h with
  | nil => rfl
  | same m _ ih =>
    rw [List.map_cons, List.map_cons, List.takeWhile_cons, List.takeWhile_cons]
    split
    · next hm => rw [ih ⟨m.char, rfl, hm⟩]
    · rfl
  | word _ _ _ hnext =>
    obtain ⟨c, hc, hw⟩ := ha
    rw [hnext c hc] at hw
    cases hw
  | content hq => simp [marks_content, isWord_of_isQuote hq]

theorem lastWord_name {w : List Char} (hw : IsName w) (ms : List Mark) :
    lastWord isWord (((Piece.marks ⟨.code, w⟩).reverse ++ ms).map Mark.char) =
      String.ofList (((ms.map Mark.char).takeWhile isWord).reverse ++ w) := by
  rw [List.map_append, List.map_reverse, Piece.map_char_marks, lastWord,
    List.takeWhile_append_of_pos fun c hc => hw.isWord c (List.mem_reverse.1 hc)]
  simp

/-- **The word in front of a place** passes a test before as it does after. -/
theorem lastWord {P : String → Bool} (hP : WordTest L L P)
    (h : Behind L after ms ms') (ha : ¬ Separates after) :
    L (P (lastWord isWord (ms.map Mark.char))) (P (lastWord isWord (ms'.map Mark.char))) := by
  cases h with
  | nil => exact hP.refl _
  | @same _ m ms ms' h =>
    have hrun : ((m :: ms).map Mark.char).takeWhile isWord =
        ((m :: ms').map Mark.char).takeWhile isWord := by
      rw [List.map_cons, List.map_cons, List.takeWhile_cons, List.takeWhile_cons]
      split
      · next hm => rw [h.run_eq ⟨m.char, rfl, hm⟩]
      · rfl
    rw [Source.lastWord, Source.lastWord, hrun]
    exact hP.refl _
  | @word _ w w' ms ms' hw hw' hk hnext hl h =>
    have hrun := h.run_eq (by
      obtain ⟨c, t, ht, hc⟩ := hw.head
      exact ⟨c, by rw [ht]; rfl, isWord_of_startsName hc⟩)
    rw [lastWord_name hw, lastWord_name hw', ← hrun]
    refine hP.joined (hk.resolve_right ha) fun hne => hl ?_
    rcases ms with _ | ⟨m, ms⟩
    · exact absurd rfl hne
    · by_cases hm : isWord m.char = true
      · exact ⟨m, rfl, hm⟩
      · rw [List.map_cons, List.takeWhile_cons_of_neg hm] at hne
        exact absurd rfl hne
  | content hq =>
    rw [marks_content, marks_content]
    simp only [List.map_cons, Source.lastWord, List.takeWhile_cons, isWord_of_isQuote hq]
    exact hP.refl _

/-! ### Tags -/

theorem declares_wordTest (hL : Coherent L) :
    WordTest L L fun w => !declarationKeywords.contains w where
  refl := hL.refl
  steady h := h.declares
  other hd hd' h := by
    rw [not_contains_of_mem (by decide) hd h, not_contains_of_mem (by decide) hd' h]

theorem returns_wordTest (hL : Coherent L) : WordTest L L (· == "return") where
  refl := hL.refl
  steady h := h.returns
  other hd hd' h := by
    have hne : ∀ {w : String} {d : Char}, d ∈ w.toList → isFlag d = false → (w == "return") = false := by
      intro w d hd h
      have hmem : ["return"].contains w = false := not_contains_of_mem (by decide) hd h
      simpa using hmem
    rw [hne hd h, hne hd' h]

/-- The characters behind two places that may be names. -/
def SameNext (next next' : Option Char) : Prop :=
  next = next' ∨ ∃ c c', next = some c ∧ next' = some c' ∧ startsName c = true ∧ startsName c' = true

theorem isAlpha_of_startsName {c : Char} (h : startsName c = true) :
    (c.isAlpha || c == '_' || c == '$') = true := by
  simp only [startsName, isIdentifier, Char.isAlphanum, Bool.and_eq_true, Bool.or_eq_true,
    Bool.not_eq_true'] at h
  obtain ⟨((h | h) | h) | h, hd⟩ := h
  · simp [h]
  · rw [h] at hd
    cases hd
  · simp [h]
  · simp [h]

theorem not_separates_append {u : List Char} (hu : ∀ c ∈ u, isBlank c = true)
    (ha : ¬ Separates after) : ¬ Separates (u ++ after) := by
  rwa [Separates, skipBlanks_append hu]

/-- **A tag** that opens in front of a place opens before as it does after. -/
theorem opensTag (hL : Coherent L) {next next' : Option Char} (hn : SameNext next next')
    (h : Behind L after ms ms') (ha : ¬ Separates after) :
    L (opensTag next ms) (opensTag next' ms') := by
  refine hL.and ?_ ?_
  · rcases hn with rfl | ⟨c, c', rfl, rfl, hc, hc'⟩
    · exact hL.refl _
    · simp only [isAlpha_of_startsName hc, isAlpha_of_startsName hc']
      exact hL.refl _
  · obtain ⟨u, hu, hs⟩ := h.skipBlankMarks
    have hword := hs.lastWord (returns_wordTest hL) (not_separates_append hu ha)
    rcases hs.head_cases with ⟨h1, h2⟩ | ⟨m, t, t', h1, h2⟩ | ⟨m, m', t, t', h1, h2, hi, hi'⟩
    · rw [h1, h2]
      exact hL.refl _
    · rw [h1, h2] at hword ⊢
      by_cases hm : isWord m.char = true
      · simpa only [hm, if_true] using hword
      · simp only [hm]
        exact hL.refl _
    · rw [h1, h2] at hword ⊢
      simpa only [isWord_of_isIdentifier hi, isWord_of_isIdentifier hi', if_true] using hword

/-- The characters that tell in the code whether a tag is open. -/
def tagMarks : List Char := "{}<>;()[]".toList

theorem not_mem_tagMarks {c : Char} (h : isIdentifier c = true) : c ∉ tagMarks := by
  intro hm
  have hall : (tagMarks.all fun e => !isIdentifier e) = true := by decide
  rw [List.all_eq_true] at hall
  simpa [h] using hall c hm

theorem insideTag_cons {m : Mark} (h : m.inCode = true → m.char ∉ tagMarks) (d : Nat)
    (next : Option Char) (ms : List Mark) :
    Source.insideTag d next (m :: ms) = Source.insideTag d (some m.char) ms := by
  cases hc : m.inCode with
  | false => simp [Source.insideTag, hc]
  | true =>
    have hne : ∀ e ∈ tagMarks, m.char ≠ e := by
      rintro e he rfl
      exact h hc he
    have hsep : (">;()[]".toList.contains m.char) = false := by
      rw [List.contains_eq_mem, decide_eq_false_iff_not]
      have hsub : ">;()[]".toList ⊆ tagMarks := by decide
      exact fun hm => h hc (hsub hm)
    cases d <;> simp only [Source.insideTag, hc, hsep, hne '}' (by decide), hne '{' (by decide),
      hne '<' (by decide)] <;> rfl

theorem insideTag_marks {k : Kind} {t : List Char} (h : k = .code → ∀ c ∈ t, c ∉ tagMarks)
    (d : Nat) (next : Option Char) (ms : List Mark) :
    Source.insideTag d next ((Piece.marks ⟨k, t⟩).reverse ++ ms) =
      Source.insideTag d (t.head?.or next) ms := by
  induction t generalizing ms with
  | nil => rfl
  | cons c t ih =>
    rw [marks_cons, ih fun hk d hd => h hk d (List.mem_cons_of_mem _ hd), insideTag_cons]
    · rfl
    · intro hk
      exact h (of_decide_eq_true hk) c (List.mem_cons_self ..)

/-- Literals and comments are passed over. -/
theorem insideTag_of_ne {k : Kind} (hk : k ≠ .code) (t : List Char) (d : Nat) (next : Option Char)
    (ms : List Mark) : Source.insideTag d next ((Piece.marks ⟨k, t⟩).reverse ++ ms) =
      Source.insideTag d (t.head?.or next) ms :=
  insideTag_marks (fun h => absurd h hk) d next ms

/-- **The inside of a tag** is inside before as it is after. -/
theorem insideTag (hL : Coherent L) {next next' : Option Char} (hn : SameNext next next')
    (h : Behind L after ms ms') (d : Nat) : L (insideTag d next ms) (insideTag d next' ms') := by
  induction h generalizing d next next' with
  | nil => exact hL.refl _
  | @same a m ms ms' h ih =>
    have ih := fun d => @ih (some m.char) (some m.char) (.inl rfl) d
    by_cases hc : m.inCode = true
    · by_cases h1 : m.char = '}'
      · simpa only [Source.insideTag, hc, h1, Bool.not_true, Bool.false_eq_true, if_false, if_true]
          using ih (d + 1)
      · cases d with
        | succ d =>
          simpa only [Source.insideTag, hc, h1, Bool.not_true, Bool.false_eq_true, if_false]
            using ih _
        | zero =>
          simp only [Source.insideTag, hc, h1, Bool.not_true, Bool.false_eq_true, if_false]
          split
          · exact hL.refl _
          · split
            · next h3 =>
              exact h.opensTag hL hn (by
                rw [h3]
                exact not_separates_of_ne (by decide) (by decide))
            · split
              · exact hL.refl _
              · exact ih 0
    · rw [Bool.not_eq_true] at hc
      simpa only [Source.insideTag, hc, Bool.not_false, if_true] using ih d
  | word hw hw' _ _ _ h ih =>
    rw [insideTag_marks fun _ c hc => not_mem_tagMarks (hw.isIdentifier c hc),
      insideTag_marks fun _ c hc => not_mem_tagMarks (hw'.isIdentifier c hc)]
    obtain ⟨c, t, ht, hc⟩ := hw.head
    obtain ⟨c', t', ht', hc'⟩ := hw'.head
    rw [ht, ht']
    exact ih (.inr ⟨c, c', rfl, rfl, hc, hc'⟩) d
  | content hq h ih =>
    rw [insideTag_of_ne (by decide), insideTag_of_ne (by decide)]
    exact ih (.inl rfl) d

theorem not_quote_of_isWord {c : Char} (h : isWord c = true) :
    (c == '"' || c == '\'' || c == '}') = false := by
  have hne : ∀ e, isWord e = false → (c == e) = false := by
    intro e he
    rw [beq_eq_false_iff_ne]
    exact ne_of_isWord h he
  rw [hne '"' (by decide), hne '\'' (by decide), hne '}' (by decide)]
  rfl

/-- **An attribute** starts behind the place before as it does after. -/
theorem attributeStarts (hL : Coherent L) (h : Behind L after ms ms') (ha : ¬ Separates after) :
    L (attributeStarts ms) (attributeStarts ms') := by
  refine hL.and ?_ ?_
  · rcases h.head_cases with ⟨rfl, rfl⟩ | ⟨m, t, t', rfl, rfl⟩ | ⟨m, m', t, t', rfl, rfl, hi, hi'⟩
    · exact hL.refl _
    · exact hL.refl _
    · simp only [isBlank_of_isIdentifier hi, isBlank_of_isIdentifier hi']
      exact hL.refl _
  · obtain ⟨u, hu, hs⟩ := h.skipBlankMarks
    have hword := hs.lastWord (declares_wordTest hL) (not_separates_append hu ha)
    rcases hs.head_cases with ⟨h1, h2⟩ | ⟨m, t, t', h1, h2⟩ | ⟨m, m', t, t', h1, h2, hi, hi'⟩
    · rw [h1, h2]
      exact hL.refl _
    · rw [h1, h2] at hword ⊢
      by_cases hm : isWord m.char = true
      · have hne := not_quote_of_isWord hm
        simpa only [hne, hm, Bool.false_or, Bool.true_and] using hword
      · simp only [hm, Bool.false_and, Bool.or_false]
        exact hL.refl _
    · rw [h1, h2] at hword ⊢
      have hm := isWord_of_isIdentifier hi
      have hm' := isWord_of_isIdentifier hi'
      simpa only [not_quote_of_isWord hm, not_quote_of_isWord hm', hm, hm', Bool.false_or,
        Bool.true_and] using hword

end Behind

end Renaming.Source
