import Renaming.Proofs.Source.Behind
import Renaming.Proofs.Source.Bytes

/-!
The tests of what surrounds a place give the same answers on the bytes of a text as on its
characters. All characters that they look for are ASCII, each of which is its own byte, and the bytes
of another character are characters of words as it is. So brackets, blanks and marks are the same, and
while a word with such a character in it is another one, neither of the two is a keyword.

`wide` is the text of the bytes and `Bytewise` relates marks to theirs; each test has one lemma.
-/

namespace Renaming.Source

open Renaming.Source.Segment (ne_of_le)
open Renaming.Text (isBlank)

/-! ### The bytes of a text -/

/-- The bytes of a text, as the characters with their codes. -/
def wide (t : List Char) : List Char := (utf8 t).map Char.ofUInt8

@[simp] theorem wide_nil : wide [] = [] := rfl

@[simp] theorem wide_append (a b : List Char) : wide (a ++ b) = wide a ++ wide b := by
  simp [wide]

section

variable {c d : Char}

theorem wide_of_lt (h : c.toNat < 0x80) : wide [c] = [c] := by
  rw [wide, utf8_of_lt h, List.map_singleton, ofUInt8_ofNat h]

theorem wide_cons_of_lt (h : c.toNat < 0x80) (t : List Char) : wide (c :: t) = c :: wide t := by
  rw [← List.singleton_append, wide_append, wide_of_lt h, List.singleton_append]

theorem le_of_mem_wide (h : 0x80 ≤ c.toNat) (hd : d ∈ wide [c]) : 0x80 ≤ d.toNat := by
  obtain ⟨b, hb, rfl⟩ := List.mem_map.1 hd
  exact le_of_mem_utf8 h hb

theorem wide_ne_nil (c : Char) : wide [c] ≠ [] := by
  have hpos : 0 < byteLength [c] := byteLength_pos (by simp)
  rw [← length_utf8] at hpos
  exact List.ne_nil_of_length_pos (by rwa [wide, List.length_map])

theorem exists_wide_cons (h : 0x80 ≤ c.toNat) (t : List Char) :
    ∃ d r, wide (c :: t) = d :: r ∧ 0x80 ≤ d.toNat := by
  obtain ⟨d, r, hd⟩ := List.exists_cons_of_ne_nil (wide_ne_nil c)
  refine ⟨d, r ++ wide t, ?_, le_of_mem_wide h (by rw [hd]; exact List.mem_cons_self ..)⟩
  rw [← List.singleton_append, wide_append, hd, List.cons_append]

/-- The run of ASCII characters of a class that ends a text is one of bytes. -/
theorem takeWhile_wide {p : Char → Bool} (hp : ∀ x : Char, 0x80 ≤ x.toNat → p x = false)
    (t : List Char) : (wide t).reverse.takeWhile p = t.reverse.takeWhile p := by
  induction t using List.reverseRecOn with
  | nil => rfl
  | append_singleton t c ih =>
    rw [wide_append, List.reverse_append, List.reverse_append, List.reverse_singleton,
      List.singleton_append]
    by_cases hc : c.toNat < 0x80
    · rw [wide_of_lt hc, List.reverse_singleton, List.singleton_append, List.takeWhile_cons,
        List.takeWhile_cons, ih]
    · obtain ⟨d, r, hd⟩ := List.exists_cons_of_ne_nil (mt List.reverse_eq_nil_iff.1 (wide_ne_nil c))
      have hmem : d ∈ wide [c] := List.mem_reverse.1 (by rw [hd]; exact List.mem_cons_self ..)
      rw [hd, List.cons_append, List.takeWhile_cons_of_neg, List.takeWhile_cons_of_neg]
      · rw [hp c (Nat.not_lt.1 hc)]
        decide
      · rw [hp d (le_of_mem_wide (Nat.not_lt.1 hc) hmem)]
        decide

theorem isWord_of_le (h : 0x80 ≤ c.toNat) : isWord c = true := by
  simp [isWord, h]

theorem isBlank_of_le (h : 0x80 ≤ c.toNat) : isBlank c = false :=
  isBlank_of_isWord (isWord_of_le h)

/-! ### What follows a place -/

theorem head?_wide (hd : d.toNat < 0x80) (t : List Char) :
    (wide t).head? = some d ↔ t.head? = some d := by
  rcases t with _ | ⟨c, t⟩
  · rfl
  · by_cases hc : c.toNat < 0x80
    · rw [wide_cons_of_lt hc, List.head?_cons, List.head?_cons]
    · obtain ⟨e, r, he, hhigh⟩ := exists_wide_cons (Nat.not_lt.1 hc) t
      rw [he, List.head?_cons, List.head?_cons, Option.some_inj, Option.some_inj]
      exact iff_of_false (ne_of_le hhigh hd) (ne_of_le (Nat.not_lt.1 hc) hd)

theorem head?_wide_bne (hd : d.toNat < 0x80) (t : List Char) :
    ((wide t).head? != some d) = (t.head? != some d) := by
  rw [Bool.eq_iff_iff, bne_iff_ne, bne_iff_ne, ne_eq, ne_eq, head?_wide hd]

theorem skipBlanks_wide (t : List Char) : skipBlanks (wide t) = wide (skipBlanks t) := by
  induction t with
  | nil => rfl
  | cons c t ih =>
    by_cases hc : c.toNat < 0x80
    · rw [wide_cons_of_lt hc, skipBlanks, skipBlanks]
      by_cases hb : isBlank c = true
      · rw [List.dropWhile_cons_of_pos hb, List.dropWhile_cons_of_pos hb]
        exact ih
      · rw [List.dropWhile_cons_of_neg hb, List.dropWhile_cons_of_neg hb, wide_cons_of_lt hc]
    · obtain ⟨d, r, hd, hhigh⟩ := exists_wide_cons (Nat.not_lt.1 hc) t
      rw [hd, skipBlanks, skipBlanks, List.dropWhile_cons_of_neg (by rw [isBlank_of_le hhigh]; simp),
        List.dropWhile_cons_of_neg (by rw [isBlank_of_le (Nat.not_lt.1 hc)]; simp), hd]

theorem colonFollows_wide (t : List Char) : colonFollows (wide t) = colonFollows t := by
  rw [colonFollows, colonFollows, skipBlanks_wide]
  generalize skipBlanks t = u
  split
  · next r h =>
    have hhead : u.head? = some ':' := (head?_wide (by decide) u).1 (by rw [h]; rfl)
    obtain ⟨v, rfl⟩ := List.head?_eq_some_iff.1 hhead
    rw [wide_cons_of_lt (by decide)] at h
    obtain ⟨-, rfl⟩ := List.cons.inj h
    exact head?_wide_bne (by decide) v
  · next r h =>
    have hhead : u.head? = some '?' := (head?_wide (by decide) u).1 (by rw [h]; rfl)
    obtain ⟨v, rfl⟩ := List.head?_eq_some_iff.1 hhead
    rw [wide_cons_of_lt (by decide)] at h
    obtain ⟨-, h⟩ := List.cons.inj h
    have hnext : v.head? = some ':' := (head?_wide (by decide) v).1 (by rw [h]; rfl)
    obtain ⟨w, rfl⟩ := List.head?_eq_some_iff.1 hnext
    rw [wide_cons_of_lt (by decide)] at h
    obtain ⟨-, rfl⟩ := List.cons.inj h
    exact head?_wide_bne (by decide) w
  · next h1 h2 =>
    split
    · next r => exact absurd (wide_cons_of_lt (by decide) r) (h1 _)
    · next r =>
      refine absurd ?_ (h2 (wide r))
      rw [wide_cons_of_lt (by decide), wide_cons_of_lt (by decide)]
    · rfl

theorem assignmentFollows_wide (t : List Char) :
    assignmentFollows (wide t) = assignmentFollows t := by
  rw [assignmentFollows, assignmentFollows, skipBlanks_wide]
  generalize skipBlanks t = u
  split
  · next r h =>
    have hhead : u.head? = some '=' := (head?_wide (by decide) u).1 (by rw [h]; rfl)
    obtain ⟨v, rfl⟩ := List.head?_eq_some_iff.1 hhead
    rw [wide_cons_of_lt (by decide)] at h
    obtain ⟨-, rfl⟩ := List.cons.inj h
    exact congrArg₂ (· && ·) (head?_wide_bne (by decide) v) (head?_wide_bne (by decide) v)
  · next h1 =>
    split
    · next r => exact absurd (wide_cons_of_lt (by decide) r) (h1 _)
    · rfl

end

/-! ### What precedes a place -/

/-- The second marks are the bytes of the first ones, each with the flag of its character. -/
inductive Bytewise : List Mark → List Mark → Prop
  | nil : Bytewise [] []
  | ascii {m : Mark} {ms ms' : List Mark} : m.char.toNat < 0x80 → Bytewise ms ms' →
    Bytewise (m :: ms) (m :: ms')
  | other {m : Mark} {us ms ms' : List Mark} : 0x80 ≤ m.char.toNat → us ≠ [] →
    (∀ u ∈ us, 0x80 ≤ u.char.toNat) → Bytewise ms ms' → Bytewise (m :: ms) (us ++ ms')

namespace Bytewise

variable {ms ms' : List Mark}

/-- Both end in the same character, or each of them in one outside ASCII. -/
theorem head_cases (h : Bytewise ms ms') : (ms = [] ∧ ms' = []) ∨
    (∃ m t t', ms = m :: t ∧ ms' = m :: t') ∨
    ∃ m m' t t', ms = m :: t ∧ ms' = m' :: t' ∧ 0x80 ≤ m.char.toNat ∧ 0x80 ≤ m'.char.toNat := by
  cases h with
  | nil => exact .inl ⟨rfl, rfl⟩
  | @ascii m t t' => exact .inr (.inl ⟨m, t, t', rfl, rfl⟩)
  | @other m us t t' hm hne hus =>
    obtain ⟨u, r, rfl⟩ := List.exists_cons_of_ne_nil hne
    exact .inr (.inr ⟨m, u, t, r ++ t', rfl, rfl, hm, hus u (List.mem_cons_self ..)⟩)

theorem skipBlankMarks (h : Bytewise ms ms') :
    Bytewise (skipBlankMarks ms) (skipBlankMarks ms') := by
  induction h with
  | nil => exact .nil
  | @ascii m ms ms' hm h ih =>
    cases hb : isBlank m.char with
    | true => rwa [skipBlankMarks_of_isBlank hb, skipBlankMarks_of_isBlank hb]
    | false =>
      rw [skipBlankMarks_of_not_isBlank hb, skipBlankMarks_of_not_isBlank hb]
      exact .ascii hm h
  | @other m us ms ms' hm hne hus h ih =>
    obtain ⟨u, r, rfl⟩ := List.exists_cons_of_ne_nil hne
    rw [skipBlankMarks_of_not_isBlank (isBlank_of_le hm), List.cons_append,
      skipBlankMarks_of_not_isBlank (isBlank_of_le (hus u (List.mem_cons_self ..)))]
    exact .other hm hne hus h

theorem not_bracket_of_le {c : Char} (h : 0x80 ≤ c.toNat) :
    isCloser c = false ∧ isOpener c = false := by
  constructor
  all_goals
    rw [Bool.eq_false_iff]
    intro hc
    simp only [isCloser, isOpener, Bool.or_eq_true, beq_iff_eq] at hc
    rcases hc with (rfl | rfl) | rfl <;> revert h <;> decide

/-- Brackets are open in both or in neither. -/
theorem innermost (h : Bytewise ms ms') (d : Nat) : innermost d ms = innermost d ms' := by
  induction h generalizing d with
  | nil => rfl
  | ascii _ _ ih => simp only [Source.innermost, ih]
  | @other m us ms ms' hm _ hus _ ih =>
    rw [← List.singleton_append, Behind.innermost_append fun x hx _ => ?_,
      Behind.innermost_append fun x hx _ => not_bracket_of_le (hus x hx), ih]
    rw [List.mem_singleton.1 hx]
    exact not_bracket_of_le hm

/-- An entry of an object starts behind both or behind neither. -/
theorem entryStarts (h : Bytewise ms ms') : entryStarts ms = entryStarts ms' := by
  rw [Source.entryStarts, Source.entryStarts, h.innermost]
  rcases h.skipBlankMarks.head_cases with ⟨h1, h2⟩ | ⟨m, t, t', h1, h2⟩ |
    ⟨m, m', t, t', h1, h2, hm, hm'⟩
  · rw [h1, h2]
  · rw [h1, h2]
  · have hne : ∀ {c : Char}, 0x80 ≤ c.toNat →
        (c == '{') = false ∧ (c == ',') = false ∧ (c == ';') = false := fun hc =>
      ⟨beq_false_of_ne (ne_of_le hc (by decide)), beq_false_of_ne (ne_of_le hc (by decide)),
        beq_false_of_ne (ne_of_le hc (by decide))⟩
    obtain ⟨e1, e2, e3⟩ := hne hm
    obtain ⟨e1', e2', e3'⟩ := hne hm'
    simp [h1, h2, e1, e2, e3, e1', e2', e3']

/-! ### Words -/

/-- The word that ends in front of the place is the same, or there is a character outside ASCII in
either of them. -/
theorem run_cases (h : Bytewise ms ms') :
    (ms.map Mark.char).takeWhile isWord = (ms'.map Mark.char).takeWhile isWord ∨
      (∃ c ∈ (ms.map Mark.char).takeWhile isWord, 0x80 ≤ c.toNat) ∧
        ∃ c ∈ (ms'.map Mark.char).takeWhile isWord, 0x80 ≤ c.toNat := by
  induction h with
  | nil => exact .inl rfl
  | @ascii m ms ms' _ _ ih =>
    rw [List.map_cons, List.map_cons, List.takeWhile_cons, List.takeWhile_cons]
    split
    · refine ih.imp (fun h => by rw [h]) fun ⟨⟨c, hc, hle⟩, d, hd, hle'⟩ => ?_
      exact ⟨⟨c, List.mem_cons_of_mem _ hc, hle⟩, d, List.mem_cons_of_mem _ hd, hle'⟩
    · exact .inl rfl
  | @other m us ms ms' hm hne hus _ _ =>
    obtain ⟨u, r, rfl⟩ := List.exists_cons_of_ne_nil hne
    have hu := hus u (List.mem_cons_self ..)
    refine .inr ⟨⟨m.char, ?_, hm⟩, u.char, ?_, hu⟩
    · rw [List.map_cons, List.takeWhile_cons_of_pos (isWord_of_le hm)]
      exact List.mem_cons_self ..
    · rw [List.cons_append, List.map_cons, List.takeWhile_cons_of_pos (isWord_of_le hu)]
      exact List.mem_cons_self ..

/-- The word that ends in front of the place is a keyword in both or in neither. -/
theorem contains_lastWord (h : Bytewise ms ms') (keywords : List String)
    (hk : ∀ w ∈ keywords, w.toList.all isFlag = true) :
    keywords.contains (lastWord isWord (ms.map Mark.char)) =
      keywords.contains (lastWord isWord (ms'.map Mark.char)) := by
  have hother : ∀ {t : List Char} {c : Char}, c ∈ t.takeWhile isWord → 0x80 ≤ c.toNat →
      keywords.contains (lastWord isWord t) = false := by
    intro t c hc hle
    refine not_contains_of_mem hk (d := c) ?_ (Segment.isAlpha_of_le hle)
    rwa [lastWord, String.toList_ofList, List.mem_reverse]
  rcases h.run_cases with hrun | ⟨⟨c, hc, hle⟩, d, hd, hle'⟩
  · rw [lastWord, lastWord, hrun]
  · rw [hother hc hle, hother hd hle']

/-! ### Tags -/

/-- The character behind the marks is the same, or it is one outside ASCII in both. -/
def SameNext (next next' : Option Char) : Prop :=
  next = next' ∨ ∃ c c', next = some c ∧ next' = some c' ∧ 0x80 ≤ c.toNat ∧ 0x80 ≤ c'.toNat

/-- A tag opens in front of the place in both or in neither. -/
theorem opensTag (h : Bytewise ms ms') {next next' : Option Char} (hn : SameNext next next') :
    opensTag next ms = opensTag next' ms' := by
  have hnames : ∀ {c : Char}, 0x80 ≤ c.toNat → (c.isAlpha || c == '_' || c == '$') = false := by
    intro c hc
    rw [Segment.isAlpha_of_le hc, beq_false_of_ne (ne_of_le hc (by decide)),
      beq_false_of_ne (ne_of_le hc (by decide))]
    rfl
  rw [Source.opensTag.eq_def, Source.opensTag.eq_def]
  congr 1
  · rcases hn with rfl | ⟨c, c', rfl, rfl, hc, hc'⟩
    · rfl
    · exact (hnames hc).trans (hnames hc').symm
  · have hword := h.skipBlankMarks.contains_lastWord ["return"] (by decide)
    simp only [List.contains_cons, List.contains_nil, Bool.or_false] at hword
    rcases h.skipBlankMarks.head_cases with ⟨h1, h2⟩ | ⟨m, t, t', h1, h2⟩ |
      ⟨m, m', t, t', h1, h2, hm, hm'⟩
    · rw [h1, h2]
    · rw [h1, h2] at hword ⊢
      simp only [hword]
    · rw [h1, h2] at hword ⊢
      simp only [isWord_of_le hm, isWord_of_le hm', if_true, hword]

theorem not_mem_tagMarks_of_le {c : Char} (h : 0x80 ≤ c.toNat) : c ∉ Behind.tagMarks := by
  intro hm
  have hall : (Behind.tagMarks.all fun e => e.toNat < 0x80) = true := by decide
  have := of_decide_eq_true (List.all_eq_true.1 hall c hm)
  omega

theorem insideTag_append {us : List Mark} (hne : us ≠ []) (hus : ∀ u ∈ us, 0x80 ≤ u.char.toNat)
    (d : Nat) (next : Option Char) (ms : List Mark) : ∃ c, 0x80 ≤ c.toNat ∧
      Source.insideTag d next (us ++ ms) = Source.insideTag d (some c) ms := by
  induction us generalizing next with
  | nil => exact absurd rfl hne
  | cons u us ih =>
    have hu := hus u (List.mem_cons_self ..)
    rw [List.cons_append, Behind.insideTag_cons fun _ => not_mem_tagMarks_of_le hu]
    by_cases hnil : us = []
    · exact ⟨u.char, hu, by rw [hnil]; rfl⟩
    · exact ih hnil (fun x hx => hus x (List.mem_cons_of_mem _ hx)) _

/-- The place is inside a tag in both or in neither. -/
theorem insideTag (h : Bytewise ms ms') {next next' : Option Char} (hn : SameNext next next')
    (d : Nat) : insideTag d next ms = insideTag d next' ms' := by
  induction h generalizing d next next' with
  | nil => rfl
  | @ascii m ms ms' _ h ih =>
    have ih := fun d => @ih (some m.char) (some m.char) (.inl rfl) d
    simp only [Source.insideTag, ih, h.opensTag hn]
  | @other m us ms ms' hm hne hus _ ih =>
    obtain ⟨c, hc, hpass⟩ := insideTag_append hne hus d next' ms'
    rw [hpass, Behind.insideTag_cons fun _ => not_mem_tagMarks_of_le hm]
    exact ih (.inr ⟨_, c, rfl, rfl, hm, hc⟩) d

/-- An attribute starts behind both or behind neither. -/
theorem attributeStarts (h : Bytewise ms ms') : attributeStarts ms = attributeStarts ms' := by
  rw [Source.attributeStarts.eq_def, Source.attributeStarts.eq_def]
  congr 1
  · rcases h.head_cases with ⟨rfl, rfl⟩ | ⟨m, t, t', rfl, rfl⟩ | ⟨m, m', t, t', rfl, rfl, hm, hm'⟩
    · rfl
    · rfl
    · exact (isBlank_of_le hm).trans (isBlank_of_le hm').symm
  · have hword := h.skipBlankMarks.contains_lastWord declarationKeywords (by decide)
    rcases h.skipBlankMarks.head_cases with ⟨h1, h2⟩ | ⟨m, t, t', h1, h2⟩ |
      ⟨m, m', t, t', h1, h2, hm, hm'⟩
    · rw [h1, h2]
    · rw [h1, h2] at hword ⊢
      simp only [hword]
    · rw [h1, h2] at hword ⊢
      simp only [Behind.not_quote_of_isWord (isWord_of_le hm),
        Behind.not_quote_of_isWord (isWord_of_le hm'), isWord_of_le hm, isWord_of_le hm', hword]

end Bytewise

end Renaming.Source
