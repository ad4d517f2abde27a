import Renaming.Proofs.Source.Texts

/-!
Texts in which the content of a string decides whether a regular expression ends. `frameText` holds
such a content, and behind it a second string that is part of a longer one.

* `tokens_frameText`: where the content ends no regular expression, the second string is no token.
* `mem_tokens_behind`: where the content ends one, the second string is a token, whatever the content
  has in store behind the end.
-/

namespace Renaming.Source

/-! ### Regular expressions over plain texts -/

theorem regex_plain {m : List Char} (hm : ∀ c ∈ m, needsEscape c = false) {k b : Bool}
    (h : sweep k m = some b) (y : List Char) :
    regex false k (m ++ y) = (regex false b y).map fun cut => ⟨m ++ cut.text, cut.rest⟩ := by
  induction m generalizing k with
  | nil =>
    obtain rfl := Option.some.inj h
    exact Option.map_id'.symm
  | cons c m ih =>
    have hc := hm c (List.mem_cons_self ..)
    have ih := fun {k} => @ih (fun d hd => hm d (List.mem_cons_of_mem _ hd)) k
    rw [sweep] at h
    rw [List.cons_append, regex, if_neg (ne_of_needsEscape hc (by decide)),
      if_neg (ne_of_needsEscape hc (by decide))]
    split at h
    · next h1 => simp [h1, ih h, Cut.push, Function.comp_def]
    · next h1 =>
      split at h
      · next h2 => simp [h2, ih h, Cut.push, Function.comp_def]
      · next h2 =>
        split at h
        · cases h
        · next h3 => simp [h1, h2, h3, ih h, Cut.push, Function.comp_def]

/-! ### Comments over plain texts -/

theorem rest_lineComment {t : List Char} (ht : ∀ c ∈ t, needsEscape c = false) (y : List Char) :
    (lineComment (t ++ y)).rest = (lineComment y).rest := by
  induction t with
  | nil => rfl
  | cons c t ih =>
    have hc := ne_of_needsEscape (d := '\n') (ht c (List.mem_cons_self ..)) (by decide)
    rw [List.cons_append, lineComment, if_neg hc]
    exact ih fun d hd => ht d (List.mem_cons_of_mem _ hd)

/-! ### A string inside another one -/

/-- The end of a line and then the string that holds `w`. -/
def lastLine (w : List Char) : List Char := '\n' :: '\'' :: (w ++ ['\'', '"'])

/-- A string that goes on over two lines and looks as if it held the string of `w` twice: once on
the first line, and once on the second line behind what ends a comment. -/
def hidden (w : List Char) : List Char :=
  '"' :: '[' :: '*' :: '/' :: '/' :: '/' :: '\'' :: '\'' ::
    (w ++ '\'' :: '[' :: '\\' :: lastLine w)

/-- The string that holds `w`. -/
def stringOf (w : List Char) : Piece := ⟨.literal, '\'' :: (w ++ ['\''])⟩

theorem blockComment_hidden (t w : List Char) :
    (∃ u, u <:+ t ∧ (blockComment (t ++ '\'' :: hidden w)).rest = u ++ '\'' :: hidden w) ∨
      (blockComment (t ++ '\'' :: hidden w)).rest = (hidden w).drop 4 := by
  induction t with
  | nil => exact .inr rfl
  | cons c t ih =>
    by_cases hend : c = '*' ∧ ∃ u, t = '/' :: u
    · obtain ⟨rfl, u, rfl⟩ := hend
      exact .inl ⟨u, ⟨['*', '/'], rfl⟩, rfl⟩
    · have hpush : blockComment (c :: (t ++ '\'' :: hidden w)) =
          (blockComment (t ++ '\'' :: hidden w)).push c := by
        rw [blockComment]
        rintro u rfl hu
        rcases t with _ | ⟨d, t⟩
        · simp at hu
        · exact hend ⟨rfl, t, by rw [(List.cons.inj hu).1]⟩
      rw [List.cons_append, hpush, Cut.rest_push]
      refine ih.imp_left ?_
      rintro ⟨u, hu, h⟩
      exact ⟨u, hu.trans (List.suffix_cons c t), h⟩

section

variable {w : List Char} (hw : ∀ c ∈ w, needsEscape c = false)

include hw

theorem quoted_hidden : quoted '"' false (hidden w).tail = ⟨(hidden w).tail, []⟩ := by
  have h := fun y => quoted_plain (q := '"') (by decide) hw y
  simp [hidden, lastLine, quoted, h, Cut.push]

theorem regex_hidden {b : Bool} (hb : sweep true w = some b) (k : Bool) :
    regex false k (hidden w) = none := by
  simp [hidden, lastLine, regex, regex_plain hw hb]

theorem tokens_hidden (s : Reader) : tokens s (hidden w) = [⟨.literal, hidden w⟩] := by
  change tokens s ('"' :: (hidden w).tail) = _
  rw [tokens_of_not_isWord s (by decide), (Reads.string (.inr rfl)).next_eq, quoted_hidden hw]
  exact congrArg (_ :: ·) (tokens_nil _)

theorem tokens_string (s : Reader) (y : List Char) :
    tokens s ('\'' :: (w ++ '\'' :: y)) =
      stringOf w :: tokens (s.string '\'' ⟨w ++ ['\''], y⟩).2 y := by
  rw [tokens_of_not_isWord s (by decide), (Reads.string (.inl rfl)).next_eq,
    quoted_content (by decide) hw]
  rfl

/-! ### What is read behind an early end -/

theorem mem_tokens_lastLine (s : Reader) : stringOf w ∈ tokens s (lastLine w) := by
  rw [lastLine, tokens_mark (c := '\n') _ (by decide) (by simp), tokens_string hw]
  exact List.mem_cons_of_mem _ (List.mem_cons_self ..)

theorem mem_tokens_hidden (s : Reader) {line : List Char} (hline : line = [] ∨ line = ['"']) :
    stringOf w ∈ tokens s ('\'' :: (line ++ hidden w)) := by
  have hq : quoted '\'' false (line ++ hidden w) =
      ⟨line ++ ['"', '[', '*', '/', '/', '/', '\''], '\'' :: (w ++ '\'' :: '[' :: '\\' :: lastLine w)⟩ := by
    rcases hline with rfl | rfl <;> simp [hidden, quoted, Cut.push]
  rw [tokens_of_not_isWord (c := '\'') _ (by decide), (Reads.string (.inl rfl)).next_eq, hq]
  refine List.mem_cons_of_mem _ ?_
  change stringOf w ∈ tokens _ ('\'' :: _)
  rw [tokens_string hw]
  exact List.mem_cons_self ..

theorem lineComment_hidden {t : List Char} (ht : ∀ c ∈ t, needsEscape c = false) :
    (lineComment (t ++ '\'' :: hidden w)).rest = lastLine w := by
  rw [rest_lineComment ht]
  simp [hidden, lastLine, lineComment, rest_lineComment hw]

theorem regex_behind {b : Bool} (hb : sweep true w = some b) {t : List Char}
    (ht : ∀ c ∈ t, needsEscape c = false) {k : Bool} {cut : Cut}
    (hcut : regex false k (t ++ '\'' :: hidden w) = some cut) :
    ∃ u, u <:+ t ∧ cut.rest = u ++ '\'' :: hidden w := by
  induction t generalizing k cut with
  | nil =>
    have h := regex_hidden hw hb k
    simp [regex, h] at hcut
  | cons c t ih =>
    have hc := ht c (List.mem_cons_self ..)
    have hpush : ∀ {k}, (regex false k (t ++ '\'' :: hidden w)).map (·.push c) = some cut →
        ∃ u, u <:+ c :: t ∧ cut.rest = u ++ '\'' :: hidden w := by
      intro k h
      obtain ⟨cut', hcut', rfl⟩ := Option.map_eq_some_iff.1 h
      obtain ⟨u, hu, hrest⟩ := ih (fun d hd => ht d (List.mem_cons_of_mem _ hd)) hcut'
      exact ⟨u, hu.trans (List.suffix_cons c t), hrest⟩
    rw [List.cons_append, regex, if_neg (ne_of_needsEscape hc (by decide)),
      if_neg (ne_of_needsEscape hc (by decide))] at hcut
    split at hcut
    · exact hpush hcut
    · split at hcut
      · exact hpush hcut
      · split at hcut
        · obtain rfl := Option.some.inj hcut
          refine ⟨t.dropWhile isFlag, (List.dropWhile_suffix _).trans (List.suffix_cons c t), ?_⟩
          have hquote : ('\'' :: hidden w).dropWhile isFlag = '\'' :: hidden w := rfl
          rw [List.dropWhile_append, hquote]
          split
          · next h => simp [List.isEmpty_iff.1 h]
          · rfl
        · exact hpush hcut

theorem mem_tokens_drop (s : Reader) : stringOf w ∈ tokens s ((hidden w).drop 4) := by
  have hrest : (lineComment ('\'' :: '\'' :: (w ++ '\'' :: '[' :: '\\' :: lastLine w))).rest =
      lastLine w := by
    simp [lastLine, lineComment, rest_lineComment hw]
  change stringOf w ∈ tokens s ('/' :: '/' :: _)
  rw [tokens_of_not_isWord _ (by decide), (Reads.line _).next_eq]
  refine List.mem_cons_of_mem _ ?_
  change stringOf w ∈ tokens _ (lineComment _).rest
  rw [hrest]
  exact mem_tokens_lastLine hw _

/-- One step behind an early end: it stays in the text `t`, or it is a comment that ends in a place
from which the string is read. -/
theorem next_behind {b : Bool} (hb : sweep true w = some b) {s : Reader}
    (hs : .substitution ∉ s.opened) {c : Char} {t : List Char}
    (ht : ∀ d ∈ c :: t, needsEscape d = false) {o : Lexeme × Reader}
    (h : Reads s c (t ++ '\'' :: hidden w) o) :
    (∃ u, u <:+ t ∧ o.1.rest = u ++ '\'' :: hidden w ∧ .substitution ∉ o.2.opened) ∨
      o.1.rest = lastLine w ∨ o.1.rest = (hidden w).drop 4 := by
  obtain ⟨hc, ht'⟩ := List.forall_mem_cons.1 ht
  generalize hr : t ++ '\'' :: hidden w = r at h
  cases h with
  | line u =>
    rcases t with _ | ⟨d, t⟩
    · cases hr
    · rw [List.cons_append, List.cons.injEq] at hr
      rw [← hr.2]
      exact .inr (.inl (lineComment_hidden hw fun e he => ht' e (List.mem_cons_of_mem _ he)))
  | block u =>
    rcases t with _ | ⟨d, t⟩
    · cases hr
    · rw [List.cons_append, List.cons.injEq] at hr
      rw [← hr.2]
      refine (blockComment_hidden t w).imp (fun ⟨u, hu, hrest⟩ => ?_) .inr
      exact ⟨u, hu.trans (List.suffix_cons d t), hrest, hs⟩
  | regex cut _ _ hcut =>
    rw [← hr] at hcut
    obtain ⟨u, hu, hrest⟩ := regex_behind hw hb ht' hcut
    exact .inl ⟨u, hu, hrest, hs⟩
  | slash => exact .inl ⟨t, t.suffix_refl, hr.symm, hs⟩
  | string hq => rcases hq with rfl | rfl <;> cases hc
  | template => cases hc
  | resume opened ho =>
    rw [ho] at hs
    exact absurd (List.mem_cons_self ..) hs
  | openBrace => exact .inl ⟨t, t.suffix_refl, hr.symm, by simpa [Reader.code] using hs⟩
  | closeBrace =>
    exact .inl ⟨t, t.suffix_refl, hr.symm, fun h => hs (List.mem_of_mem_tail h)⟩
  | mark => exact .inl ⟨t, t.suffix_refl, hr.symm, hs⟩

/-- **Behind an early end** of a regular expression the string is read, whatever the text `t` in front
of it holds: words, marks and braces, comments, or more regular expressions. -/
theorem mem_tokens_behind {b : Bool} (hb : sweep true w = some b) (s : Reader)
    (hs : .substitution ∉ s.opened) {t : List Char} (ht : ∀ c ∈ t, needsEscape c = false) :
    stringOf w ∈ tokens s (t ++ '\'' :: hidden w) := by
  induction hn : t.length using Nat.strong_induction_on generalizing s t with
  | _ n ih =>
    have ih : ∀ {u : List Char} (s : Reader), u.length < t.length → u <:+ t →
        .substitution ∉ s.opened → stringOf w ∈ tokens s (u ++ '\'' :: hidden w) :=
      fun s hlt hu hs => ih _ (hn ▸ hlt) s hs (fun c hc => ht c (hu.mem hc)) rfl
    rcases t with _ | ⟨c, t⟩
    · exact mem_tokens_hidden hw s (.inl rfl)
    cases hc : isWord c with
    | true =>
      have hlt : (t.dropWhile isWord).length < (c :: t).length :=
        Nat.lt_succ_of_le (List.dropWhile_suffix _).length_le
      have hquote : ('\'' :: hidden w).dropWhile isWord = '\'' :: hidden w := rfl
      rw [List.cons_append, tokens_of_isWord s hc, List.dropWhile_append, hquote]
      refine List.mem_cons_of_mem _ ?_
      split
      · exact mem_tokens_hidden hw _ (.inl rfl)
      · exact ih _ hlt ((List.dropWhile_suffix _).trans (List.suffix_cons c t)) hs
    | false =>
      rw [List.cons_append, tokens_of_not_isWord s hc]
      refine List.mem_cons_of_mem _ ?_
      rcases next_behind hw hb hs ht (s.reads_next c _) with ⟨u, hu, hrest, hopened⟩ | hrest | hrest
      · rw [hrest]
        exact ih _ (Nat.lt_succ_of_le hu.length_le) (hu.trans (List.suffix_cons c t)) hopened
      · rw [hrest]
        exact mem_tokens_lastLine hw _
      · rw [hrest]
        exact mem_tokens_drop hw _

end

/-! ### The text -/

/-- A text that may hold a regular expression: a slash, then an opening bracket if `k` says so, the
string of `m`, the text `mid`, and the string that hides that of `w`. -/
def frameText (k : Bool) (m mid w : List Char) : List Char :=
  '/' :: ((if k then ['['] else []) ++ '\'' :: (m ++ '\'' :: (mid ++ hidden w)))

/-- The string that holds a slash and a quote. -/
def slashString : List Char := ['"', '/', '\'', '"']

section

variable {k : Bool} {m w : List Char} (hm : ∀ c ∈ m, needsEscape c = false)
  (hw : ∀ c ∈ w, needsEscape c = false)

theorem regex_bracket (k : Bool) (r : List Char) :
    regex false false ((if k then ['['] else []) ++ '\'' :: r) =
      (regex false k r).map fun cut => ⟨(if k then ['['] else []) ++ '\'' :: cut.text, cut.rest⟩ := by
  cases k <;> simp [regex, Cut.push, Function.comp_def]

theorem head?_bracket_ne (k : Bool) (r : List Char) :
    ∀ d ∈ ((if k then ['['] else []) ++ '\'' :: r).head?, d ≠ '/' ∧ d ≠ '*' := by
  cases k <;> simp

include hm hw

/-- **The text where the content ends no regular expression.** -/
theorem tokens_frameText {b b' : Bool} (hb : sweep k m = some b) (hb' : sweep true w = some b')
    {mid : List Char} (hmid : mid = [] ∨ mid = slashString ∧ b = true) :
    tokensOf (frameText k m mid w) = ⟨.code, ['/']⟩ :: ((if k then [⟨.code, ['[']⟩] else []) ++
      stringOf m :: ((if mid = [] then [] else [⟨.literal, mid⟩]) ++ [⟨.literal, hidden w⟩])) := by
  have hnone : regex false false ((if k then ['['] else []) ++ '\'' :: (m ++ '\'' :: (mid ++ hidden w))) =
      none := by
    have hmidnone : regex false b ('\'' :: (mid ++ hidden w)) = none := by
      rcases hmid with rfl | ⟨rfl, rfl⟩
      · simp [regex, regex_hidden hw hb']
      · simp [slashString, regex, regex_hidden hw hb']
    rw [regex_bracket, regex_plain hm hb, hmidnone]
    rfl
  have hmiddle : ∀ s : Reader, tokens s (mid ++ hidden w) =
      (if mid = [] then [] else [⟨.literal, mid⟩]) ++ [⟨.literal, hidden w⟩] := by
    intro s
    rcases hmid with rfl | ⟨rfl, -⟩
    · exact tokens_hidden hw s
    · have hq : quoted '"' false (slashString.tail ++ hidden w) = ⟨slashString.tail, hidden w⟩ := by
        simp [slashString, quoted, Cut.push]
      change tokens s ('"' :: (slashString.tail ++ hidden w)) = _
      rw [tokens_of_not_isWord s (by decide), (Reads.string (.inr rfl)).next_eq, hq]
      exact congrArg (_ :: ·) (tokens_hidden hw _)
  rw [tokensOf, frameText, tokens_slash _ (head?_bracket_ne k _) fun _ => hnone]
  cases k with
  | true =>
    change _ :: tokens _ ('[' :: _) = _
    rw [tokens_mark (c := '[') _ (by decide) (by simp)]
    change _ :: _ :: tokens _ ('\'' :: _) = _
    rw [tokens_string hm, hmiddle]
    rfl
  | false =>
    change _ :: tokens _ ('\'' :: _) = _
    rw [tokens_string hm, hmiddle]
    rfl

/-- Where the content ends a regular expression before its own end. -/
theorem mem_tokens_frameText {b' : Bool} (hb : sweep k m = none) (hb' : sweep true w = some b') :
    stringOf w ∈ tokensOf (frameText k m [] w) := by
  have hsome := isSome_regex_append hm k ('\'' :: hidden w)
  rw [hb] at hsome
  obtain ⟨cut, hcut⟩ := Option.isSome_iff_exists.1 hsome
  obtain ⟨u, hu, hrest⟩ := regex_behind hw hb' hm hcut
  have h := regex_bracket k (m ++ '\'' :: hidden w)
  rw [hcut] at h
  rw [tokensOf, frameText, List.nil_append, tokens_regex _ (head?_bracket_ne k _) rfl h]
  refine List.mem_cons_of_mem _ ?_
  change stringOf w ∈ tokens _ cut.rest
  rw [hrest]
  exact mem_tokens_behind hw hb' _ (by simp [Reader.expression, Reader.start]) fun c hc => hm c (hu.mem hc)

/-- Where the content leaves a class of characters. -/
theorem mem_tokens_frameText_slashString (hb : sweep k m = some false) :
    stringOf w ∈ tokensOf (frameText k m slashString w) := by
  have hcut : regex false false ('\'' :: (slashString ++ hidden w)) =
      some ⟨['\'', '"', '/'], '\'' :: (['"'] ++ hidden w)⟩ := by
    simp [slashString, regex, Cut.push, isFlag]
  have h := regex_bracket k (m ++ '\'' :: (slashString ++ hidden w))
  rw [regex_plain hm hb, hcut] at h
  rw [tokensOf, frameText, tokens_regex _ (head?_bracket_ne k _) rfl h]
  exact List.mem_cons_of_mem _ (mem_tokens_hidden hw _ (.inr rfl))

end

/-! ### The text with another content -/

section

variable {ren : Site → String} {before : List Mark} {after : List Char}

/-- A function that gives no string with quotes, backslashes or line ends another name. -/
def KeepsQuotes (ren : Site → String) : Prop :=
  ∀ site, site.inCode = false → (∃ c ∈ site.name.toList, needsEscape c = true) → ren site = site.name

theorem redraw_string {m : String} (hm : ∀ c ∈ m.toList, needsEscape c = false) :
    Piece.redraw ren before after (stringOf m.toList) =
      stringOf (ren ⟨m, false, before, after⟩).toList := by
  have hcontent := content?_of_plain (q := '\'') (by decide) hm
  rw [Piece.redraw, stringOf, Piece.fragments_content hcontent]
  simp [Fragment.redraw, stringOf]

theorem KeepsQuotes.redraw (hren : KeepsQuotes ren) {q q' : Char} {m : List Char}
    (hm : ∃ c ∈ m, needsEscape c = true) :
    Piece.redraw ren before after ⟨.literal, q :: (m ++ [q'])⟩ = ⟨.literal, q :: (m ++ [q'])⟩ := by
  generalize hp : (⟨.literal, q :: (m ++ [q'])⟩ : Piece) = p
  have hshape := p.shape before after
  unfold Piece.redraw
  generalize p.fragments before after = fs at hshape ⊢
  cases hshape with
  | kept => simp [Fragment.redraw]
  | word => cases hp
  | @content q₁ m₁ =>
    have htext := congrArg Piece.text hp
    simp only [List.cons.injEq] at htext
    obtain ⟨rfl, -⟩ := List.append_inj' htext.2 rfl
    simp [Fragment.redraw, hren ⟨m₁, false, before, after⟩ rfl hm]

theorem textOf_redrawn_frameText (hren : KeepsQuotes ren) {k : Bool} {m m' : String}
    (hm : ∀ c ∈ m.toList, needsEscape c = false)
    (hrenm : ∀ before after, ren ⟨m, false, before, after⟩ = m')
    {mid w : List Char} (hmid : mid = [] ∨ mid = slashString) :
    textOf (redrawn ren before (⟨.code, ['/']⟩ :: ((if k then [⟨.code, ['[']⟩] else []) ++
      stringOf m.toList :: ((if mid = [] then [] else [⟨.literal, mid⟩]) ++
        [⟨.literal, hidden w⟩])))) = frameText k m'.toList mid w := by
  have hhidden : ∀ before after,
      Piece.redraw ren before after ⟨.literal, hidden w⟩ = ⟨.literal, hidden w⟩ := by
    intro before after
    have hquote : hidden w = '"' :: ('[' :: '*' :: '/' :: '/' :: '/' :: '\'' :: '\'' ::
        (w ++ '\'' :: '[' :: '\\' :: '\n' :: '\'' :: (w ++ ['\''])) ++ ['"']) := by
      simp [hidden, lastLine]
    rw [hquote]
    exact hren.redraw ⟨'\'', by simp, by decide⟩
  have hslash : ∀ before after, Piece.redraw ren before after ⟨.literal, ['"', '/', '\'', '"']⟩ =
      ⟨.literal, ['"', '/', '\'', '"']⟩ :=
    fun _ _ => hren.redraw (m := ['/', '\'']) ⟨'\'', by simp, by decide⟩
  have hstring : ∀ before after,
      Piece.redraw ren before after (stringOf m.toList) = stringOf m'.toList := by
    intro before after
    rw [redraw_string hm, hrenm]
  generalize hx : stringOf m.toList = x at hstring ⊢
  have hmarks : isWord '/' = false ∧ isWord '[' = false := by decide
  rcases hmid with rfl | rfl <;> cases k <;>
    simp [redrawn, redraw_mark hmarks.1, redraw_mark hmarks.2, hstring, hhidden, hslash, stringOf,
      frameText, slashString]

end

end Renaming.Source
