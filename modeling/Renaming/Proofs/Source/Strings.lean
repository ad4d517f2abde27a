import Renaming.Proofs.Source.Frames

/-!
Texts in which a string may be lost. Each of them holds the string of a text `w`; in the second reading
the place where the string starts lies inside a token that starts in front of it.

* `entryTail`: whether a slash behind a name opens a regular expression decides.
* `exists_tokens_frameText`: the content of the string decides, by what it does to a regular expression
  in front of it.
* `exists_tokens_template`: the content decides, by opening a substitution.
-/

namespace Renaming.Source

open Renaming.Text (isBlank)

/-! ### Tokens by position -/

/-- Two tokens of which the one starts inside the other are the same. -/
theorem eq_of_append_token {xs ys us vs : List Piece} {p t : Piece} (hne : p.text ≠ [])
    (h : xs ++ p :: ys = us ++ t :: vs) (hle : (textOf us).length ≤ (textOf xs).length)
    (hlt : (textOf xs).length < (textOf us).length + t.text.length) : xs = us ∧ p = t := by
  have hpos : 0 < p.text.length := List.length_pos_iff.2 hne
  rcases List.append_eq_append_iff.1 h with ⟨w, rfl, hw⟩ | ⟨w, rfl, hw⟩
  · rcases w with _ | ⟨q, w⟩
    · exact ⟨(List.append_nil _).symm, (List.cons.inj hw).1⟩
    · obtain ⟨rfl, -⟩ := List.cons.inj hw
      rw [textOf_append, textOf_cons, List.length_append, List.length_append] at hle
      omega
  · rcases w with _ | ⟨q, w⟩
    · exact ⟨List.append_nil _, (List.cons.inj hw).1.symm⟩
    · obtain ⟨rfl, -⟩ := List.cons.inj hw
      rw [textOf_append, textOf_cons, List.length_append, List.length_append] at hlt
      omega

/-! ### Tokens that stay -/

/-- A token without a place that gets a new name. -/
def Piece.Still (ren : Site → String) (p : Piece) : Prop :=
  ∀ before after, p.redraw ren before after = p

theorem Piece.still_mark {ren : Site → String} {c : Char} (hc : Source.isWord c = false) :
    Piece.Still ren ⟨.code, [c]⟩ := fun _ _ => redraw_mark hc

theorem Piece.still_slash {ren : Site → String} {t : List Char} :
    Piece.Still ren ⟨.literal, '/' :: t⟩ := fun _ _ => redraw_slash

theorem redrawn_append_of_still {ren : Site → String} {xs : List Piece} (h : ∀ p ∈ xs, p.Still ren)
    (before : List Mark) (ys : List Piece) : redrawn ren before (xs ++ ys) =
      xs ++ redrawn ren ((marksOf xs).reverse ++ before) ys := by
  induction xs generalizing before with
  | nil => rfl
  | cons x xs ih =>
    obtain ⟨hx, hxs⟩ := List.forall_mem_cons.1 h
    rw [List.cons_append, redrawn, hx, ih hxs]
    simp

theorem redrawn_of_still {ren : Site → String} {xs : List Piece} (h : ∀ p ∈ xs, p.Still ren)
    (before : List Mark) : redrawn ren before xs = xs := by
  have happend := redrawn_append_of_still h before []
  rwa [List.append_nil, redrawn, List.append_nil] at happend

/-! ### A slash in front of a string -/

/-- The text ` /u{'w':v`, in which `w` is a key of an object behind a slash. -/
def entryTail (u w v : List Char) : List Char :=
  ' ' :: '/' :: (u ++ '{' :: '\'' :: (w ++ '\'' :: ':' :: v))

/-- The tokens of the text in front of the string, where `u` and the slash are one. -/
def entryFront (k : Kind) (u : List Char) : List Piece :=
  [⟨.code, [' ']⟩, ⟨k, '/' :: u⟩, ⟨.code, ['{']⟩]

theorem entryTail_eq (k : Kind) (u w : List Char) (zs : List Piece) : entryTail u w (textOf zs) =
    textOf (entryFront k u) ++ textOf (stringOf w :: ⟨.code, [':']⟩ :: zs) := by
  simp [entryTail, entryFront, stringOf]

theorem still_entryFront {ren : Site → String} {k : Kind} {u : List Char}
    (h : Piece.Still ren ⟨k, '/' :: u⟩) : ∀ p ∈ entryFront k u, Piece.Still ren p := by
  simp only [entryFront, List.forall_mem_cons]
  exact ⟨Piece.still_mark isWord_blank, h, Piece.still_mark (by decide), List.forall_mem_nil _⟩

theorem not_separates_entryTail (u w v : List Char) : ¬ Separates (entryTail u w v) :=
  not_separates_of_blank (not_separates_of_ne (by decide) (by decide))

theorem isKey_entry {ls zs : List Piece} {k : Kind} {u : List Char} {w : String}
    (hzs : (textOf zs).head? ≠ some ':') : Site.isKey ⟨w, false,
      (marksOf (ls ++ entryFront k u)).reverse, textOf (⟨.code, [':']⟩ :: zs)⟩ = true := by
  have hcolon : colonFollows (textOf (⟨.code, [':']⟩ :: zs)) = true := by
    change colonFollows (':' :: textOf zs) = true
    simp [colonFollows, skipBlanks, isBlank, hzs]
  have hmarks : (marksOf (ls ++ entryFront k u)).reverse =
      ⟨'{', true⟩ :: (marksOf (ls ++ [⟨.code, [' ']⟩, ⟨k, '/' :: u⟩])).reverse := by
    simp [marksOf, entryFront, Piece.marks]
  rw [Site.isKey, hmarks, hcolon, entryStarts, skipBlankMarks_of_not_isBlank (by decide)]
  rfl

section

variable {w : List Char} (s : Reader)

theorem exists_tokens_openBrace (r : List Char) : ∃ s' : Reader,
    tokens s ('{' :: r) = ⟨.code, ['{']⟩ :: tokens s' r := by
  rw [tokens_of_not_isWord (c := '{') _ (by decide), (Reads.openBrace _).next_eq]
  exact ⟨_, rfl⟩

/-- Where no operand follows, the slash is one of the code. -/
theorem tokens_entryTail (hw : ∀ c ∈ w, needsEscape c = false) (h : operandAfter s.last = false) :
    tokens s (entryTail [] w [']', '/']) = entryFront .code [] ++ stringOf w :: ⟨.code, [':']⟩ ::
      [⟨.code, [']']⟩, ⟨.code, ['/']⟩] := by
  have hend : ∀ s : Reader, tokens s ['/'] = [⟨.code, ['/']⟩] := by
    intro s
    rw [tokens_slash _ (by simp) (fun _ => rfl), tokens_nil]
  rw [entryTail, tokens_blank,
    tokens_slash _ (by simp) (fun ha => by rw [allowsRegex_blank, h] at ha; cases ha)]
  obtain ⟨s', hs'⟩ := exists_tokens_openBrace _ _
  rw [List.nil_append, hs', tokens_string hw, tokens_mark (c := ':') _ (by decide) (by simp),
    tokens_mark (c := ']') _ (by decide) (by simp), hend]
  rfl

/-- Where an operand follows, a regular expression covers the start of the string. The bracket
closes what class of characters the text may have left open. -/
theorem exists_tokens_entryTail (hw : ∀ c ∈ w, needsEscape c = false)
    (h : operandAfter s.last = true) : ∃ u ts, tokens s (entryTail [] w [']', '/']) =
      [⟨.code, [' ']⟩] ++ ⟨.literal, '/' :: '{' :: '\'' :: u⟩ :: ts := by
  have hsome : (regex false false (w ++ ['\'', ':', ']', '/'])).isSome = true := by
    rw [isSome_regex_append hw]
    cases sweep false w with
    | none => rfl
    | some k => cases k <;> rfl
  obtain ⟨cut, hcut⟩ := Option.isSome_iff_exists.1 hsome
  have hregex : regex false false ('{' :: '\'' :: (w ++ ['\'', ':', ']', '/'])) =
      some ⟨'{' :: '\'' :: cut.text, cut.rest⟩ := by
    simp [regex, hcut, Cut.push]
  rw [entryTail, tokens_blank, List.nil_append,
    tokens_regex _ (by simp) ((allowsRegex_blank s _).trans h) hregex]
  exact ⟨cut.text, _, rfl⟩

/-- Where an operand follows, the text `/'/` is a regular expression. -/
theorem tokens_entryTail_operand (hw : ∀ c ∈ w, needsEscape c = false)
    (h : operandAfter s.last = true) : tokens s (entryTail ['\'', '/'] w []) =
      entryFront .literal ['\'', '/'] ++ stringOf w :: ⟨.code, [':']⟩ :: [] := by
  have hcut : regex false false (['\'', '/'] ++ '{' :: '\'' :: (w ++ ['\'', ':'])) =
      some ⟨['\'', '/'], '{' :: '\'' :: (w ++ ['\'', ':'])⟩ := by
    simp [regex, Cut.push, isFlag]
  rw [entryTail, tokens_blank, tokens_regex _ (by simp) ((allowsRegex_blank s _).trans h) hcut]
  obtain ⟨s', hs'⟩ := exists_tokens_openBrace _ _
  rw [hs', tokens_string hw, tokens_mark (c := ':') _ (by decide) (by simp), tokens_nil]
  rfl

/-- Where no operand follows, a string starts behind the slash and ends where that of `w` starts. -/
theorem exists_tokens_entryTail_quote (h : operandAfter s.last = false) : ∃ ts,
    tokens s (entryTail ['\'', '/'] w []) =
      [⟨.code, [' ']⟩, ⟨.code, ['/']⟩] ++ ⟨.literal, ['\'', '/', '{', '\'']⟩ :: ts := by
  have hq : quoted '\'' false ('/' :: '{' :: '\'' :: (w ++ ['\'', ':'])) =
      ⟨['/', '{', '\''], w ++ ['\'', ':']⟩ := by
    simp [quoted, Cut.push]
  change ∃ ts, tokens s (' ' :: '/' :: '\'' :: '/' :: '{' :: '\'' :: (w ++ ['\'', ':'])) = _
  rw [tokens_blank,
    tokens_slash _ (by simp) (fun ha => by rw [allowsRegex_blank, h] at ha; cases ha),
    tokens_of_not_isWord (c := '\'') _ (by decide), (Reads.string (.inl rfl)).next_eq, hq]
  exact ⟨_, rfl⟩

end

/-! ### The content of a string -/

/-- The tokens of `frameText` in front of the string, where no regular expression ends. -/
def frameFront (k : Bool) : List Piece :=
  ⟨.code, ['/']⟩ :: (if k then [⟨.code, ['[']⟩] else [])

/-- The tokens of `frameText` behind the string. -/
def frameRest (mid w : List Char) : List Piece :=
  (if mid = [] then [] else [⟨.literal, mid⟩]) ++ [⟨.literal, hidden w⟩]

theorem still_frameFront {ren : Site → String} {k : Bool} :
    ∀ p ∈ frameFront k, Piece.Still ren p := by
  cases k <;> simp [frameFront, Piece.still_mark isWord_slash, Piece.still_mark (c := '[') (by decide)]

/-- Where the string and what follows it end a regular expression, it is the first token. -/
theorem exists_tokens_frameText {k : Bool} {m mid w : List Char} {cut : Cut}
    (h : regex false k (m ++ '\'' :: (mid ++ hidden w)) = some cut) :
    ∃ ts, tokensOf (frameText k m mid w) =
      ⟨.literal, '/' :: ((if k then ['['] else []) ++ '\'' :: cut.text)⟩ :: ts := by
  have hcut := regex_bracket k (m ++ '\'' :: (mid ++ hidden w))
  rw [h] at hcut
  rw [tokensOf, frameText, tokens_regex _ (head?_bracket_ne k _) rfl hcut]
  exact ⟨_, rfl⟩

theorem tokensOf_template {m : List Char} (hm : ∀ c ∈ m, needsEscape c = false)
    (hs : ¬ ['$', '{'] <:+: m) : tokensOf ('\x60' :: (m ++ ['\x60'])) =
      [⟨.literal, '\x60' :: (m ++ ['\x60'])⟩] := by
  rw [tokensOf, tokens_of_not_isWord _ (by decide), (Reads.template _).next_eq,
    template_content hm hs]
  exact congrArg (_ :: ·) (tokens_nil _)

/-- A closed string ends with a quote. -/
theorem Piece.content?_eq_none_of_getLast? {p : Piece} (h : p.text.getLast? = some '{') :
    p.content? = none := by
  rw [Option.eq_none_iff_forall_ne_some]
  intro m hm
  obtain ⟨-, q, hq, ht⟩ := Piece.text_of_content? hm
  have hlast : p.text.getLast? = some q := by
    rw [ht]
    exact getLast?_cons_of_eq_some List.getLast?_concat
  obtain rfl : '{' = q := Option.some.inj (h.symm.trans hlast)
  cases hq

/-- A template whose text opens a substitution ends with the opening brace. -/
theorem exists_tokens_template {m : List Char} (hm : ∀ c ∈ m, needsEscape c = false)
    (hs : ['$', '{'] <:+: m) : ∃ u ts, tokensOf ('\x60' :: (m ++ ['\x60'])) =
      ⟨.literal, '\x60' :: u⟩ :: ts ∧ u.getLast? = some '{' := by
  rw [tokensOf, tokens_of_not_isWord _ (by decide), (Reads.template _).next_eq]
  exact ⟨_, _, rfl, (getLast?_template false _).1 (template_opens hm hs _)⟩

end Renaming.Source
