import Mathlib.Data.List.TakeWhile
import Renaming.Proofs.Source.Faded

/-!
Short texts whose meaning hangs on a name in them. Each of them is read in two ways, and what is a
place in one of them is none in the other.

* `quoteText` and `slashText`: a slash behind the name opens a regular expression or not.
* `fieldText` and `elementText`: a word behind the name is an attribute or not.
-/

namespace Renaming.Source

open Renaming.Text (isBlank)

/-! ### Places of given tokens -/

/-- The places of a token are places of the tokens that it is one of. -/
theorem mem_placed {p : Piece} {before : List Mark} {ps qs : List Piece} {f : Fragment}
    (h : f ∈ p.fragments ((marksOf ps).reverse ++ before) (textOf qs)) :
    f ∈ placed before (ps ++ p :: qs) := by
  induction ps generalizing before with
  | nil => exact List.mem_append_left _ (by simpa using h)
  | cons q ps ih =>
    rw [marksOf_cons, List.reverse_append, List.append_assoc] at h
    exact List.mem_append_right _ (ih h)

/-- A name among the tokens of a source is a place. -/
theorem place_mem_fragmentsOf {source : List Char} {w : String} (hw : IsName w.toList)
    {ps qs : List Piece} (h : tokensOf source = ps ++ ⟨.code, w.toList⟩ :: qs) :
    .place ⟨w, true, (marksOf ps).reverse, textOf qs⟩ ∈ fragmentsOf source := by
  rw [fragmentsOf_eq_placed, h]
  refine mem_placed ?_
  rw [List.append_nil, hw.fragments]
  exact List.mem_singleton_self _

theorem exists_place_of_name {source : List Char} {w : String} (hw : IsName w.toList)
    (h : ⟨.code, w.toList⟩ ∈ tokensOf source) :
    ∃ s, .place s ∈ fragmentsOf source ∧ s.name = w ∧ s.inCode = true := by
  obtain ⟨ps, qs, hps⟩ := List.append_of_mem h
  exact ⟨_, place_mem_fragmentsOf hw hps, rfl, rfl⟩

/-- A closed string among the tokens of a source holds a place. -/
theorem exists_place_of_string {source : List Char} {q : Char} {m : String}
    (hq : isQuote q = true) (hm : ∀ c ∈ m.toList, needsEscape c = false)
    (h : ⟨.literal, q :: (m.toList ++ [q])⟩ ∈ tokensOf source) :
    ∃ s, .place s ∈ fragmentsOf source ∧ s.name = m ∧ s.inCode = false := by
  obtain ⟨ps, qs, hps⟩ := List.append_of_mem h
  refine ⟨⟨m, false, (marksOf ps).reverse, textOf qs⟩, ?_, rfl, rfl⟩
  rw [fragmentsOf_eq_placed, hps]
  refine mem_placed ?_
  rw [List.append_nil, Piece.fragments_content (content?_of_plain hq hm)]
  exact List.mem_cons_of_mem _ (List.mem_cons_self ..)

/-- A place with no mark behind it is neither a key nor an attribute. -/
theorem Site.not_key_of_not_separates {s : Site} (h : ¬ Separates s.after) :
    s.isKey = false ∧ s.isAttribute = false := by
  have hcolon : colonFollows s.after = false := by
    rw [Bool.eq_false_iff]
    exact fun hc => h (separates_of_colonFollows hc)
  have hassign : assignmentFollows s.after = false := by
    rw [Bool.eq_false_iff]
    exact fun hc => h (separates_of_assignmentFollows hc)
  simp [Site.isKey, Site.isAttribute, hcolon, hassign]

theorem not_separates_nil : ¬ Separates [] := by
  rintro ⟨c, hc, -⟩
  cases hc

theorem not_separates_of_blank {a : List Char} (h : ¬ Separates a) : ¬ Separates (' ' :: a) :=
  Behind.not_separates_append (u := [' ']) (by simp; decide) h

theorem not_separates_name {w : List Char} (hw : IsName w) (a : List Char) :
    ¬ Separates (w ++ a) := by
  obtain ⟨c, t, rfl, hc⟩ := hw.head
  exact not_separates_of_isWord (isWord_of_startsName hc)

/-! ### New names for given tokens -/

theorem isWord_blank : isWord ' ' = false := by decide

theorem isWord_slash : isWord '/' = false := by decide

section

variable {ren : Site → String} {before : List Mark} {after : List Char}

theorem redraw_mark {c : Char} (hc : isWord c = false) :
    Piece.redraw ren before after ⟨.code, [c]⟩ = ⟨.code, [c]⟩ := by
  simp [Piece.redraw, Piece.fragments, Piece.isWord, Piece.content?, hc, Fragment.redraw]

theorem redraw_name {w : String} (hw : IsName w.toList) :
    Piece.redraw ren before after ⟨.code, w.toList⟩ =
      ⟨.code, (ren ⟨w, true, before, after⟩).toList⟩ := by
  simp [Piece.redraw, hw.fragments, Fragment.redraw]

/-- A literal that is no closed string has no place. -/
theorem redraw_literal {t : List Char} (ht : ∀ q m, isQuote q = true → t ≠ q :: (m ++ [q])) :
    Piece.redraw ren before after ⟨.literal, t⟩ = ⟨.literal, t⟩ := by
  have hnone : Piece.content? ⟨.literal, t⟩ = none := by
    rw [Option.eq_none_iff_forall_not_mem]
    intro m hm
    obtain ⟨-, q, hq, h⟩ := Piece.text_of_content? (Option.mem_def.1 hm)
    exact ht q m hq h
  simp [Piece.redraw, Piece.fragments, Piece.isWord, hnone, Fragment.redraw]

theorem not_closed_of_isName {w : List Char} (hw : IsName w) (a : List Char) (q : Char)
    (m : List Char) (hq : isQuote q = true) : a ++ w ≠ q :: (m ++ [q]) := by
  intro h
  have hlast : (a ++ w).getLast? = some q := by
    rw [h]
    exact getLast?_cons_of_eq_some List.getLast?_concat
  rw [List.getLast?_append_of_ne_nil _ hw.ne_nil] at hlast
  have hqw := hw.isWord q (List.mem_of_getLast? hlast)
  rw [isWord_of_isQuote hq] at hqw
  cases hqw

theorem redraw_slash {t : List Char} :
    Piece.redraw ren before after ⟨.literal, '/' :: t⟩ = ⟨.literal, '/' :: t⟩ := by
  refine redraw_literal fun q m hq h => ?_
  rw [← (List.cons.inj h).1] at hq
  cases hq

end

/-! ### Single tokens -/

theorem tokens_mark (s : Reader) {c : Char} (hc : isWord c = false)
    (hm : ∀ d ∈ ['/', '\'', '"', '\x60', '{', '}'], c ≠ d) (r : List Char) :
    tokens s (c :: r) = ⟨.code, [c]⟩ :: tokens (s.code c r).2 r := by
  rw [tokens_of_not_isWord s hc, (Reads.mark hm).next_eq]
  rfl

theorem tokens_slash (s : Reader) {r : List Char} (hr : ∀ c ∈ r.head?, c ≠ '/' ∧ c ≠ '*')
    (h : s.allowsRegex = true → regex false false r = none) :
    tokens s ('/' :: r) = ⟨.code, ['/']⟩ :: tokens (s.code '/' r).2 r := by
  rw [tokens_of_not_isWord s (by decide), (Reads.slash hr h).next_eq]
  rfl

theorem tokens_regex (s : Reader) {r : List Char} {cut : Cut}
    (hr : ∀ c ∈ r.head?, c ≠ '/' ∧ c ≠ '*') (h : s.allowsRegex = true)
    (hcut : regex false false r = some cut) :
    tokens s ('/' :: r) = ⟨.literal, '/' :: cut.text⟩ :: tokens (s.expression '/' cut).2 cut.rest := by
  rw [tokens_of_not_isWord s (by decide), (Reads.regex cut hr h hcut).next_eq]
  rfl

/-- A slash behind a blank opens a regular expression where an operand follows. -/
theorem allowsRegex_blank (s : Reader) (r : List Char) :
    (s.code ' ' r).2.allowsRegex = operandAfter s.last := by
  rw [Reader.allowsRegex_eq]
  rfl

theorem isWord_head_blank (r : List Char) : ∀ c ∈ (' ' :: r).head?, isWord c = false := by
  intro c hc
  obtain rfl : ' ' = c := by simpa using hc
  decide

theorem tokens_blank (s : Reader) (r : List Char) :
    tokens s (' ' :: r) = ⟨.code, [' ']⟩ :: tokens (s.code ' ' r).2 r :=
  tokens_mark (c := ' ') s (by decide) (by simp) r

theorem tokens_name {w : List Char} (hw : IsName w) (s : Reader) : tokens s w = [⟨.code, w⟩] := by
  have h := tokens_word_append (y := []) s hw.ne_nil hw.isWord (by simp)
  rwa [List.append_nil, tokens_nil] at h

theorem tokens_name_blank {w : List Char} (hw : IsName w) (s : Reader) (r : List Char) :
    tokens s (w ++ ' ' :: r) = ⟨.code, w⟩ :: tokens (s.word w) (' ' :: r) :=
  tokens_word_append s hw.ne_nil hw.isWord (isWord_head_blank r)

/-- A name behind a slash makes no comment of it. -/
theorem head?_name_ne {w : List Char} (hw : IsName w) (r : List Char) :
    ∀ d ∈ (w ++ r).head?, d ≠ '/' ∧ d ≠ '*' := by
  obtain ⟨c, t, rfl, hc⟩ := hw.head
  rintro d hd
  obtain rfl : c = d := by simpa using hd
  have hcw := isWord_of_startsName hc
  exact ⟨ne_of_isWord hcw (by decide), ne_of_isWord hcw (by decide)⟩

/-! ### A name behind letters -/

/-- A text that puts the letters `p` in front of what follows it: they are the flags of a regular
expression. -/
def lead (p : List Char) : List Char := (if p = [] then [] else ['/', 'x', '/']) ++ p

/-- The tokens of the name `w` behind the letters `p`. -/
def touched (p w : List Char) : List Piece :=
  if p = [] then [⟨.code, w⟩] else Piece.absorb ⟨.literal, lead p⟩ [⟨.code, w⟩]

@[simp] theorem lead_nil : lead [] = [] := rfl

section

variable {p w : List Char} (hp : ∀ c ∈ p, isFlag c = true)

include hp

/-- The letters are the last word in front of the name. -/
theorem takeWhile_lead {q : Char → Bool} (hq : ∀ c, isFlag c = true → q c = true)
    (hslash : q '/' = false) : (lead p).reverse.takeWhile q = p.reverse := by
  rw [lead, List.reverse_append,
    List.takeWhile_append_of_pos fun c hc => hq c (hp c (List.mem_reverse.1 hc))]
  split
  · simp
  · simp [hslash]

/-- What follows the name is the operand of the word that the letters make of it. -/
theorem operandAfter_lead (hw : IsName w) :
    operandAfter (lead p ++ w).reverse = regexKeywords.contains (String.ofList (p ++ w)) := by
  rw [List.reverse_append, operandAfter_word hw,
    takeWhile_lead hp (fun c hc => Faded.isIdentifier_of_isFlag hc) (by decide), List.reverse_reverse]

theorem lastWord_lead (hw : IsName w) :
    lastWord isWord (lead p ++ w).reverse = String.ofList (p ++ w) := by
  rw [List.reverse_append, lastWord_append hw.isWord,
    takeWhile_lead hp (fun c hc => isWord_of_isFlag hc) (by decide), List.reverse_reverse]

/-- The letters are flags in a text that ends with them. -/
theorem regex_flags : regex false false ('x' :: '/' :: p) = some ⟨'x' :: '/' :: p, []⟩ := by
  have htake : p.takeWhile isFlag = p := List.takeWhile_eq_self_iff.2 hp
  have hdrop : p.dropWhile isFlag = [] := List.dropWhile_eq_nil_iff.2 hp
  simp [regex, htake, hdrop, Cut.push]

/-- The reader behind the name. -/
theorem operandAfter_start (hw : IsName w) :
    operandAfter (Reader.start.word (lead p ++ w)).last =
      regexKeywords.contains (String.ofList (p ++ w)) := by
  rw [← operandAfter_lead hp hw, Reader.word, Reader.start, List.append_nil]

/-- **A name behind letters** is read after the letters, and the reader remembers the text. -/
theorem tokens_touched (hw : IsName w) {y : List Char} (hy : ∀ c ∈ y.head?, isWord c = false) :
    tokensOf (lead p ++ (w ++ y)) =
      touched p w ++ tokens (Reader.start.word (lead p ++ w)) y := by
  rw [touched]
  split
  · next hnil =>
    subst hnil
    exact tokens_word_append _ hw.ne_nil hw.isWord hy
  · next hne =>
    have hlead : lead p = '/' :: 'x' :: '/' :: p := by simp [lead, hne]
    have habsorb := tokens_absorb (y := w ++ y) .start (by simp) rfl (regex_flags hp)
    rw [tokens_word_append _ hw.ne_nil hw.isWord hy] at habsorb
    have hstate : ((Reader.start.expression '/' ⟨'x' :: '/' :: p, []⟩).2.word w) =
        Reader.start.word (lead p ++ w) := by
      simp [Reader.expression, Reader.word, Reader.start, hlead]
    rw [hstate, ← hlead, Piece.absorb_cons] at habsorb
    rw [← habsorb, hlead]
    rfl

end

section

variable {p w : List Char}

theorem textOf_touched : textOf (touched p w) = lead p ++ w := by
  rw [touched]
  split
  · next hnil => simp [hnil]
  · simp [textOf_absorb]

/-- Where the letters touch the name they are no part of its token. -/
theorem touched_of_touches (h : Touches p w) (hw : IsName w) :
    touched p w = (if p = [] then [] else [⟨.literal, lead p⟩]) ++ [⟨.code, w⟩] := by
  rw [touched]
  split
  · rfl
  · next hne =>
    obtain ⟨c, t, rfl, -⟩ := hw.head
    rw [Piece.absorb_of_isFlag (by simpa [startsWithLetter] using h.apart hne)]
    rfl

/-- The name behind letters that touch it gets another one. -/
theorem textOf_redrawn_touched {ren : Site → String} {w w' : String} {ps : List Piece}
    (h : Touches p w.toList) (hw : IsName w.toList)
    (hren : ∀ before, ren ⟨w, true, before, textOf ps⟩ = w') :
    textOf (redrawn ren [] (touched p w.toList ++ ps)) = lead p ++ (w'.toList ++
      textOf (redrawn ren (marksOf (touched p w.toList)).reverse ps)) := by
  rw [touched_of_touches h hw]
  split
  · next hnil =>
    subst hnil
    simp [redrawn, redraw_name hw, hren]
  · next hne =>
    have hlead : lead p = '/' :: 'x' :: '/' :: p := by simp [lead, hne]
    simp [redrawn, redraw_name hw, hren, hlead, redraw_slash]

end

/-- A name behind a regular expression. -/
theorem tokens_flags {w : List Char} (hw : IsName w) : tokensOf ('/' :: 'x' :: '/' :: w) =
    Piece.absorb ⟨.literal, ['/', 'x', '/']⟩ [⟨.code, w⟩] := by
  rw [← tokens_name hw (Reader.start.expression '/' ⟨['x', '/'], []⟩).2]
  exact tokens_absorb .start (by simp) rfl (regex_flags (p := []) nofun)

/-! ### A slash behind a name -/

/-- The text ` /'/ w`: where an operand follows it holds a regular expression and then the name `w`,
and elsewhere a string that is not closed. -/
def quoteTail (w : List Char) : List Char := ' ' :: '/' :: '\'' :: '/' :: ' ' :: w

/-- The text ` /w/`: where an operand follows it is a regular expression, and elsewhere it holds the
name `w`. -/
def slashTail (w : List Char) : List Char := ' ' :: '/' :: (w ++ ['/'])

theorem regex_name {w : List Char} (hw : ∀ c ∈ w, isIdentifier c = true) :
    regex false false (w ++ ['/']) = some ⟨w ++ ['/'], []⟩ := by
  induction w with
  | nil => rfl
  | cons c w ih =>
    have hne : ∀ d, isIdentifier d = false → c ≠ d := by
      rintro d hd rfl
      rw [hw c (List.mem_cons_self ..)] at hd
      cases hd
    rw [List.cons_append, regex, if_neg (hne _ (by decide)), if_neg (hne _ (by decide)),
      if_neg (hne _ (by decide)), if_neg (hne _ (by decide)), if_neg (by simp [hne '/' (by decide)]),
      ih fun d hd => hw d (List.mem_cons_of_mem _ hd)]
    rfl

section

variable {w : List Char} (hw : IsName w) (s : Reader)

include hw

theorem tokens_quoteTail (h : operandAfter s.last = false) : tokens s (quoteTail w) =
    [⟨.code, [' ']⟩, ⟨.code, ['/']⟩, ⟨.literal, '\'' :: '/' :: ' ' :: w⟩] := by
  have hq : quoted '\'' false ('/' :: ' ' :: w) = ⟨'/' :: ' ' :: w, []⟩ := by
    have hplain : ∀ c ∈ '/' :: ' ' :: w, needsEscape c = false := by
      simp only [List.forall_mem_cons]
      exact ⟨by decide, by decide, fun c hc => needsEscape_of_isIdentifier (hw.isIdentifier c hc)⟩
    simpa [quoted] using quoted_plain (q := '\'') (by decide) hplain []
  rw [quoteTail, tokens_blank,
    tokens_slash _ (by simp) (fun ha => by rw [allowsRegex_blank, h] at ha; cases ha),
    tokens_of_not_isWord _ (by decide), (Reads.string (.inl rfl)).next_eq, hq]
  exact congrArg (fun ps => _ :: _ :: _ :: ps) (tokens_nil _)

theorem tokens_quoteTail_operand (h : operandAfter s.last = true) : tokens s (quoteTail w) =
    [⟨.code, [' ']⟩, ⟨.literal, ['/', '\'', '/']⟩, ⟨.code, [' ']⟩, ⟨.code, w⟩] := by
  have hcut : regex false false ('\'' :: '/' :: ' ' :: w) = some ⟨['\'', '/'], ' ' :: w⟩ := by
    simp [regex, Cut.push, isFlag]
  rw [quoteTail, tokens_blank,
    tokens_regex _ (by simp) ((allowsRegex_blank s _).trans h) hcut, tokens_blank, tokens_name hw]

theorem mem_tokens_slashTail (h : operandAfter s.last = false) :
    ⟨.code, w⟩ ∈ tokens s (slashTail w) := by
  rw [slashTail, tokens_blank,
    tokens_slash _ (head?_name_ne hw _) (fun ha => by rw [allowsRegex_blank, h] at ha; cases ha),
    tokens_word_append _ hw.ne_nil hw.isWord (by simp; decide)]
  simp

theorem tokens_slashTail_operand (h : operandAfter s.last = true) : tokens s (slashTail w) =
    [⟨.code, [' ']⟩, ⟨.literal, '/' :: (w ++ ['/'])⟩] := by
  rw [slashTail, tokens_blank,
    tokens_regex _ (head?_name_ne hw _) ((allowsRegex_blank s _).trans h)
      (regex_name hw.isIdentifier), tokens_nil]

end

/-! ### A word in a tag -/

/-- The text ` w=`, in which `w` may be an attribute. -/
def fieldTail (w : List Char) : List Char := ' ' :: (w ++ ['='])

/-- The text ` <w {} w=`, in which the last `w` is an attribute where a tag may open. -/
def elementTail (w : List Char) : List Char :=
  ' ' :: '<' :: (w ++ ' ' :: '{' :: '}' :: fieldTail w)

theorem tokens_fieldTail {w : List Char} (hw : IsName w) (s : Reader) :
    tokens s (fieldTail w) = [⟨.code, [' ']⟩, ⟨.code, w⟩, ⟨.code, ['=']⟩] := by
  rw [fieldTail, tokens_blank, tokens_word_append _ hw.ne_nil hw.isWord (by simp; decide),
    tokens_mark (c := '=') _ (by decide) (by simp), tokens_nil]

theorem tokens_elementTail {w : List Char} (hw : IsName w) (s : Reader) :
    tokens s (elementTail w) = [⟨.code, [' ']⟩, ⟨.code, ['<']⟩, ⟨.code, w⟩, ⟨.code, [' ']⟩,
      ⟨.code, ['{']⟩, ⟨.code, ['}']⟩, ⟨.code, [' ']⟩, ⟨.code, w⟩, ⟨.code, ['=']⟩] := by
  rw [elementTail, tokens_blank, tokens_mark (c := '<') _ (by decide) (by simp),
    tokens_name_blank hw, tokens_blank, tokens_of_not_isWord (c := '{') _ (by decide),
    (Reads.openBrace _).next_eq]
  simp only [Reader.code]
  rw [tokens_of_not_isWord (c := '}') _ (by decide), (Reads.closeBrace (by simp)).next_eq]
  simp only [Reader.code]
  rw [tokens_fieldTail hw]
  rfl

section

variable {v a : List Char} {ms : List Mark}

/-- The marks of a text that ends in a name. -/
theorem exists_marks_of_name (hv : IsName v) (hms : ms.map Mark.char = (a ++ v).reverse) :
    ∃ m t, ms = m :: t ∧ isIdentifier m.char = true := by
  obtain ⟨c, t, ht⟩ := List.exists_cons_of_ne_nil (mt List.reverse_eq_nil_iff.1 hv.ne_nil)
  rw [List.reverse_append, ht, List.cons_append] at hms
  obtain ⟨m, ms, rfl, hm, -⟩ := List.map_eq_cons_iff.1 hms
  refine ⟨m, ms, rfl, ?_⟩
  rw [hm]
  exact hv.isIdentifier c (by rw [← List.mem_reverse, ht]; exact List.mem_cons_self ..)

/-- Behind a word and a blank an attribute starts unless the word introduces a declaration. -/
theorem attributeStarts_of_name (hv : IsName v) (hms : ms.map Mark.char = (a ++ v).reverse) :
    attributeStarts (⟨' ', true⟩ :: ms) =
      !declarationKeywords.contains (lastWord isWord (a ++ v).reverse) := by
  obtain ⟨m, t, rfl, hc⟩ := exists_marks_of_name hv hms
  have hb : isBlank ' ' = true := by decide
  have hmw := isWord_of_isIdentifier hc
  rw [attributeStarts, skipBlankMarks_of_isBlank hb,
    skipBlankMarks_of_not_isBlank (isBlank_of_isIdentifier hc)]
  simp only [hb, Behind.not_quote_of_isWord hmw, hmw, hms, Bool.true_and, Bool.false_or]

/-- Behind a word and a blank a tag opens where the word returns. -/
theorem opensTag_of_name (hv : IsName v) (hms : ms.map Mark.char = (a ++ v).reverse)
    {next : Option Char} (hnext : ∃ c ∈ next, (c.isAlpha || c == '_' || c == '$') = true) :
    opensTag next (⟨' ', true⟩ :: ms) = (lastWord isWord (a ++ v).reverse == "return") := by
  obtain ⟨m, t, rfl, hc⟩ := exists_marks_of_name hv hms
  obtain ⟨c, rfl, hcn⟩ := hnext
  rw [opensTag, skipBlankMarks_of_isBlank (by decide),
    skipBlankMarks_of_not_isBlank (isBlank_of_isIdentifier hc)]
  simp only [hcn, isWord_of_isIdentifier hc, hms, Bool.true_and, if_true]

end

theorem map_char_marksOf_reverse (ps : List Piece) :
    (marksOf ps).reverse.map Mark.char = (textOf ps).reverse := by
  rw [List.map_reverse, map_char_marksOf]

section

variable {v w : String} (hv : IsName v.toList)

include hv

theorem isAttribute_fieldTail : Site.isAttribute ⟨w, true,
    (marksOf [⟨.code, ['<']⟩, ⟨.code, v.toList⟩, ⟨.code, [' ']⟩]).reverse, ['=']⟩ =
      !declarationKeywords.contains v := by
  have hmarks : (marksOf [⟨.code, ['<']⟩, ⟨.code, v.toList⟩, ⟨.code, [' ']⟩]).reverse =
      ⟨' ', true⟩ :: ((Piece.marks ⟨.code, v.toList⟩).reverse ++ [⟨'<', true⟩]) := by
    simp [Piece.marks]
  have hinside : insideTag 0 w.toList.head?
      (⟨' ', true⟩ :: ((Piece.marks ⟨.code, v.toList⟩).reverse ++ [⟨'<', true⟩])) = true := by
    obtain ⟨c, t, ht, hc⟩ := hv.head
    change insideTag 0 (some ' ') _ = true
    rw [Behind.insideTag_marks fun _ c hc => Behind.not_mem_tagMarks (hv.isIdentifier c hc), ht]
    exact Bool.and_eq_true_iff.2 ⟨Behind.isAlpha_of_startsName hc, rfl⟩
  have hword : lastWord isWord (['<'] ++ v.toList).reverse = v := by
    rw [List.reverse_append, lastWord_append hv.isWord]
    simp [show isWord '<' = false by decide]
  have hchars : List.map Mark.char ((Piece.marks ⟨.code, v.toList⟩).reverse ++ [Mark.mk '<' true]) =
      (['<'] ++ v.toList).reverse := by simp [List.map_reverse]
  rw [Site.isAttribute, hmarks, hinside, attributeStarts_of_name hv hchars, hword]
  simp [assignmentFollows, skipBlanks, isBlank]

/-- The tokens of the text ` <w {} ` behind the tokens `ls`. -/
def elementTokens (ls : List Piece) (w : String) : List Piece :=
  ls ++ [⟨.code, [' ']⟩, ⟨.code, ['<']⟩, ⟨.code, w.toList⟩, ⟨.code, [' ']⟩, ⟨.code, ['{']⟩,
    ⟨.code, ['}']⟩, ⟨.code, [' ']⟩]

theorem isAttribute_elementTail (hw : IsName w.toList) {p : List Char}
    (hp : ∀ c ∈ p, isFlag c = true) {ls : List Piece} (hls : textOf ls = lead p ++ v.toList) :
    Site.isAttribute ⟨w, true, (marksOf (elementTokens ls w)).reverse, ['=']⟩ =
      (joined p v == "return") := by
  have hmarks : (marksOf (elementTokens ls w)).reverse = ⟨' ', true⟩ :: ⟨'}', true⟩ ::
      ⟨'{', true⟩ :: ⟨' ', true⟩ :: ((Piece.marks ⟨.code, w.toList⟩).reverse ++
        ⟨'<', true⟩ :: ⟨' ', true⟩ :: (marksOf ls).reverse) := by
    simp [elementTokens, marksOf, Piece.marks]
  have hinside : ∀ next ms, insideTag 0 next (⟨' ', true⟩ :: ⟨'}', true⟩ :: ⟨'{', true⟩ ::
      ⟨' ', true⟩ :: ((Piece.marks ⟨.code, w.toList⟩).reverse ++ ⟨'<', true⟩ :: ms)) =
      opensTag (w.toList.head?.or (some ' ')) ms := by
    intro next ms
    exact Behind.insideTag_marks (fun _ c hc => Behind.not_mem_tagMarks (hw.isIdentifier c hc)) 0
      (some ' ') (⟨'<', true⟩ :: ms)
  have hnext : ∃ c ∈ w.toList.head?.or (some ' '), (c.isAlpha || c == '_' || c == '$') = true := by
    obtain ⟨c, t, ht, hc⟩ := hw.head
    exact ⟨c, by rw [ht]; rfl, Behind.isAlpha_of_startsName hc⟩
  have hchars : (marksOf ls).reverse.map Mark.char = (lead p ++ v.toList).reverse := by
    rw [map_char_marksOf_reverse, hls]
  rw [Site.isAttribute, hmarks, hinside, opensTag_of_name hv hchars hnext, lastWord_lead hp hv]
  rfl

end

end Renaming.Source
