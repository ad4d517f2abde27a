import Renaming.Proofs.Source.Settle

/-!
The reader on a source with new names. It is followed over the source and over the text with the
new names at once: `Level` is what two readers keep in common that stand before texts that are
alike.

* `tokens_redrawn`: the text with the new names is read as the tokens with the new names, of which
  regular expressions have taken letters.
-/

namespace Renaming.Source

open Renaming.Text (isBlank)

/-! ### Readers in step -/

/-- What two readers have in common that stand before texts that are alike. The first one has read
the marks `before`, and `cs` is the text before it. -/
structure Level (before : List Mark) (cs : List Char) (s s' : Reader) : Prop where
  marks : s.before = before.map Mark.char
  opened : s'.opened = s.opened
  tag : cs.head? = some '/' → (s'.before.head? = some '<' ↔ s.before.head? = some '<')
  operand : Separates cs ∨ operandAfter s'.last = operandAfter s.last
  run : (∃ c ∈ cs.head?, isWord c = true) →
    s'.before.takeWhile isIdentifier = s.before.takeWhile isIdentifier
  seam : Seamed before cs

namespace Level

variable {before : List Mark} {cs : List Char} {s s' : Reader}

theorem operand_eq (h : Level before cs s s') (hcs : ¬ Separates cs) :
    operandAfter s'.last = operandAfter s.last :=
  h.operand.resolve_left hcs

theorem allowsRegex {r : List Char} (h : Level before ('/' :: r) s s') :
    s'.allowsRegex = s.allowsRegex := by
  have htag : (s'.before.head? != some '<') = (s.before.head? != some '<') := by
    rw [Bool.eq_iff_iff, bne_iff_ne, bne_iff_ne, ne_eq, ne_eq, h.tag rfl]
  rw [Reader.allowsRegex_eq, Reader.allowsRegex_eq, htag,
    h.operand_eq (not_separates_of_ne (by decide) (by decide))]

/-- The readers after the token `t` of the first text. -/
theorem after (h : Level before cs s s') (k : Kind) {t y : List Char} {s₁ s₁' : Reader}
    (hb : s₁.before = t.reverse ++ s.before) (ho : s₁'.opened = s₁.opened)
    (htag : y.head? = some '/' → (s₁'.before.head? = some '<' ↔ s₁.before.head? = some '<'))
    (hl : Separates y ∨ operandAfter s₁'.last = operandAfter s₁.last)
    (hrun : (∃ c ∈ y.head?, isWord c = true) →
      s₁'.before.takeWhile isIdentifier = s₁.before.takeWhile isIdentifier)
    (hseam : Seam ⟨k, t⟩ y) :
    Level ((Piece.marks ⟨k, t⟩).reverse ++ before) y s₁ s₁' := by
  have hchars : s₁.before = ((Piece.marks ⟨k, t⟩).reverse ++ before).map Mark.char := by
    rw [List.map_append, List.map_reverse, Piece.map_char_marks, hb, h.marks]
  exact ⟨hchars, ho, htag, hl, hrun, hseam.seamed before⟩

end Level

theorem takeWhile_reverse_append {t : List Char} (h : ∃ c ∈ t, isIdentifier c = false)
    (a a' : List Char) : (t.reverse ++ a').takeWhile isIdentifier =
      (t.reverse ++ a).takeWhile isIdentifier := by
  have hlen : (t.reverse.takeWhile isIdentifier).length ≠ t.reverse.length := by
    intro hlen
    have hall : t.reverse.takeWhile isIdentifier = t.reverse :=
      (List.takeWhile_prefix isIdentifier).eq_of_length hlen
    obtain ⟨c, hc, hcw⟩ := h
    rw [← List.mem_reverse, ← hall] at hc
    rw [List.all_eq_true.1 List.all_takeWhile c hc] at hcw
    cases hcw
  rw [List.takeWhile_append, List.takeWhile_append, if_neg hlen, if_neg hlen]

theorem head?_reverse_append {t : List Char} (h : t ≠ []) (a a' : List Char) :
    (t.reverse ++ a').head? = (t.reverse ++ a).head? := by
  obtain ⟨c, u, hu⟩ := List.exists_cons_of_ne_nil (mt List.reverse_eq_nil_iff.1 h)
  rw [hu]
  rfl

theorem Level.after_same {before : List Mark} {cs : List Char} {s s' : Reader}
    (h : Level before cs s s') (k : Kind) {t y : List Char} {s₁ s₁' : Reader}
    (ht : ∃ c ∈ t, isIdentifier c = false) (hb : s₁.before = t.reverse ++ s.before)
    (hb' : s₁'.before = t.reverse ++ s'.before) (ho : s₁'.opened = s₁.opened)
    (hl : Separates y ∨ operandAfter s₁'.last = operandAfter s₁.last) (hseam : Seam ⟨k, t⟩ y) :
    Level ((Piece.marks ⟨k, t⟩).reverse ++ before) y s₁ s₁' := by
  have hne : t ≠ [] := by
    rintro rfl
    simp at ht
  refine h.after k hb ho (fun _ => ?_) hl (fun _ => ?_) hseam
  · rw [hb, hb', head?_reverse_append hne s.before]
  · rw [hb, hb', takeWhile_reverse_append ht s.before]

/-! ### Steps of two readers -/

section

variable {L : Bool → Bool → Prop} {before : List Mark} {s s' : Reader}

/-- The readers after a word that is in both texts. -/
theorem Level.word_same {w y : List Char} (h : Level before (w ++ y) s s') (hne : w ≠ [])
    (hw : ∀ c ∈ w, isWord c = true) (hy : ∀ c ∈ y.head?, isWord c = false) :
    Level ((Piece.marks ⟨.code, w⟩).reverse ++ before) y (s.word w) (s'.word w) := by
  have hrun : s'.before.takeWhile isIdentifier = s.before.takeWhile isIdentifier := by
    obtain ⟨c, t, rfl⟩ := List.exists_cons_of_ne_nil hne
    exact h.run ⟨c, rfl, hw c (List.mem_cons_self ..)⟩
  have hhead := head?_reverse_append hne s.before s'.before
  refine h.after .code rfl h.opened (fun _ => ?_) (.inr (operandAfter_congr hhead ?_)) ?_
    (seam_of_isWord_head hy)
  · rw [Reader.word, Reader.word, hhead]
  · rw [Reader.word, Reader.word, List.takeWhile_append, List.takeWhile_append, hrun]
  · rintro ⟨c, hc, hcw⟩
    rw [hy c hc] at hcw
    cases hcw

theorem Level.word_other {w w' : String} {y : List Char} (h : Level before (w.toList ++ y) s s')
    (hw : IsName w.toList) (hw' : IsName w'.toList) (hk : Steady L w w' ∨ Separates y)
    (hy : ∀ c ∈ y.head?, isWord c = false) :
    Level ((Piece.marks ⟨.code, w.toList⟩).reverse ++ before) y (s.word w.toList)
      (s'.word w'.toList) := by
  have hrun : s'.before.takeWhile isIdentifier = s.before.takeWhile isIdentifier := by
    obtain ⟨c, t, ht, hc⟩ := hw.head
    exact h.run ⟨c, by rw [ht]; rfl, isWord_of_startsName hc⟩
  have hend : ∀ {v : List Char} (a : List Char), IsName v → (v.reverse ++ a).head? ≠ some '<' := by
    intro v a hv hhead
    obtain ⟨c, t, ht⟩ := List.exists_cons_of_ne_nil (mt List.reverse_eq_nil_iff.1 hv.ne_nil)
    rw [ht] at hhead
    obtain rfl : c = '<' := by simpa using hhead
    have hc := hv.isIdentifier '<' (by rw [← List.mem_reverse, ht]; exact List.mem_cons_self ..)
    cases hc
  -- a run in front of the name is the end of a regular expression, behind which no letter stands
  have hletter : (s.before.takeWhile isIdentifier).reverse ≠ [] → startsWithLetter w.toList = false := by
    intro hne
    obtain ⟨d, t, ht, -⟩ := hw.head
    have hb : ∃ m ∈ before.head?, isWord m.char = true := by
      rw [h.marks] at hne
      rcases before with _ | ⟨m, ms⟩
      · exact absurd rfl hne
      · by_cases hm : isIdentifier m.char = true
        · exact ⟨m, rfl, isWord_of_isIdentifier hm⟩
        · rw [List.map_cons, List.takeWhile_cons_of_neg hm] at hne
          exact absurd rfl hne
    have hseam := h.seam hb
    rw [ht] at hseam ⊢
    simpa [startsWithLetter] using hseam
  refine h.after .code rfl h.opened (fun _ => ?_) ?_ ?_ (seam_of_isWord_head hy)
  · exact iff_of_false (hend _ hw') (hend _ hw)
  · refine hk.symm.imp id fun hk => ?_
    rw [Reader.word, Reader.word, operandAfter_word hw, operandAfter_word hw', hrun]
    exact (regex_wordTest L).joined hk hletter
  · rintro ⟨c, hc, hcw⟩
    rw [hy c hc] at hcw
    cases hcw

theorem Separates.of_blank {c : Char} {r : List Char} (h : Separates (c :: r))
    (hb : isBlank c = true) : Separates r := by
  rwa [Separates, skipBlanks, List.dropWhile_cons_of_pos hb] at h

theorem operandAfter_eq {c : Char} (h : isWord c = false) (r r' : List Char) :
    operandAfter (c :: r') = operandAfter (c :: r) := by
  rw [operandAfter_of_not_isWord h, operandAfter_of_not_isWord h]

/-- The readers after a mark of the code, which may open or close braces. -/
theorem Level.code {c : Char} {r : List Char} {o o' : List Brace} (h : Level before (c :: r) s s')
    (hc : isWord c = false) (ho : o' = o) (y' : List Char) :
    Level ((Piece.marks ⟨.code, [c]⟩).reverse ++ before) r
      (({ s with opened := o } : Reader).code c r).2 (({ s' with opened := o' } : Reader).code c y').2 := by
  refine h.after_same .code ⟨c, List.mem_cons_self .., isIdentifier_of_not_isWord hc⟩ rfl rfl ho ?_
    (.inr ⟨rfl, c, rfl, hc⟩)
  by_cases hb : isBlank c = true
  · simp only [Reader.code, hb, if_true]
    exact h.operand.imp (fun hs => hs.of_blank hb) id
  · simp only [Reader.code, hb]
    exact .inr (operandAfter_eq hc _ _)

/-- A token that is no word is read again when a text follows in which the same is read ahead. -/
theorem next_same {c : Char} {r y' t : List Char} (h : Level before (c :: r) s s')
    (hc : isWord c = false) (hy : Ahead (s.next c r).1.rest y')
    (hregex : (s.next c r).1.piece.isRegex = false) (ht : (s.next c r).1.text = c :: t) :
    ∃ s₁', s'.next c (t ++ y') = (⟨(s.next c r).1.kind, c :: t, y'⟩, s₁') ∧
      Level ((s.next c r).1.piece.marks.reverse ++ before) (s.next c r).1.rest (s.next c r).2 s₁' := by
  have hread := s.reads_next c r
  have hseam := s.seam_next hc r
  have hci : ∃ d ∈ c :: t, isIdentifier d = false :=
    ⟨c, List.mem_cons_self .., isIdentifier_of_not_isWord hc⟩
  generalize s.next c r = o at *
  cases hread with
  | line u =>
    obtain rfl : '/' :: (lineComment u).text = t := (List.cons.inj ht).2
    refine ⟨s'.advance ('/' :: '/' :: (lineComment u).text), ?_, ?_⟩
    · rw [List.cons_append, (Reads.line _).next_eq, lineComment_append hy.sameEnd]
      rfl
    · exact h.after_same .comment hci rfl rfl h.opened
        (.inr (h.operand_eq (not_separates_of_ne (by decide) (by decide)))) hseam
  | block u =>
    obtain rfl : '*' :: (blockComment u).text = t := (List.cons.inj ht).2
    refine ⟨s'.advance ('/' :: '*' :: (blockComment u).text), ?_, ?_⟩
    · rw [List.cons_append, (Reads.block _).next_eq, blockComment_append hy.sameEnd.nil]
      rfl
    · exact h.after_same .comment hci rfl rfl h.opened
        (.inr (h.operand_eq (not_separates_of_ne (by decide) (by decide)))) hseam
  | regex => cases hregex
  | @slash r hr ha =>
    obtain rfl : [] = t := (List.cons.inj ht).2
    have ha' := h.allowsRegex
    refine ⟨(s'.code '/' y').2, Reads.next_eq (.slash ?_ ?_), h.code hc h.opened y'⟩
    · intro d hd
      have hne : ∀ e ∈ ['/', '*'], (∀ c ∈ r.head?, c ≠ e) → d ≠ e := by
        rintro e he hre rfl
        exact hy.head d he (fun h' => hre d h' rfl) hd
      exact ⟨hne _ (by decide) fun c hc => (hr c hc).1, hne _ (by decide) fun c hc => (hr c hc).2⟩
    · exact fun h' => hy.regex (ha (ha'.symm.trans h'))
  | string hq =>
    obtain rfl : (quoted c false r).text = t := (List.cons.inj ht).2
    refine ⟨(s'.string c ⟨(quoted c false r).text, y'⟩).2, ?_, ?_⟩
    · rw [(Reads.string hq).next_eq, quoted_append hy.sameEnd]
      rfl
    · exact h.after_same .literal hci rfl rfl h.opened (.inr (operandAfter_eq hc _ _)) hseam
  | template =>
    obtain rfl : (template false r).1.text = t := (List.cons.inj ht).2
    refine ⟨(s'.piece '\x60' s'.opened ⟨(template false r).1.text, y'⟩ (template false r).2).2, ?_, ?_⟩
    · rw [(Reads.template _).next_eq, template_append hy.sameEnd.nil]
      rfl
    · refine h.after_same .literal hci rfl rfl ?_ (.inr ?_) hseam
      · rw [Reader.piece, Reader.piece, h.opened]
      · rw [Reader.piece, Reader.piece]
        split
        · rfl
        · exact operandAfter_eq hc _ _
  | @resume r opened ho =>
    obtain rfl : (template false r).1.text = t := (List.cons.inj ht).2
    refine ⟨(s'.piece '}' opened ⟨(template false r).1.text, y'⟩ (template false r).2).2, ?_, ?_⟩
    · rw [(Reads.resume opened (h.opened.trans ho)).next_eq, template_append hy.sameEnd.nil]
      rfl
    · refine h.after_same .literal hci rfl rfl rfl (.inr ?_) hseam
      rw [Reader.piece, Reader.piece]
      split
      · rfl
      · exact operandAfter_eq hc _ _
  | openBrace =>
    obtain rfl : [] = t := (List.cons.inj ht).2
    exact ⟨_, (Reads.openBrace _).next_eq, h.code hc (by rw [h.opened]) y'⟩
  | closeBrace ho =>
    obtain rfl : [] = t := (List.cons.inj ht).2
    exact ⟨_, (Reads.closeBrace (by rwa [h.opened])).next_eq, h.code hc (by rw [h.opened]) y'⟩
  | mark hm =>
    obtain rfl : [] = t := (List.cons.inj ht).2
    exact ⟨_, (Reads.mark hm).next_eq, h.code hc h.opened y'⟩

/-- A regular expression is read again, with the letters of the text that follows it. -/
theorem next_regex {c : Char} {r y' t : List Char} (h : Level before (c :: r) s s')
    (hc : isWord c = false) (hregex : (s.next c r).1.piece.isRegex = true)
    (ht : (s.next c r).1.text = c :: t) :
    ∃ s₁', tokens s' (c :: (t ++ y')) = (s.next c r).1.piece.absorb (tokens s₁' y') ∧
      Level ((s.next c r).1.piece.marks.reverse ++ before) (s.next c r).1.rest (s.next c r).2 s₁' := by
  have hread := s.reads_next c r
  have hseam := s.seam_next hc r
  generalize s.next c r = o at *
  cases hread with
  | @regex r cut hr ha hcut =>
    obtain rfl : cut.text = t := (List.cons.inj ht).2
    obtain ⟨u, f, hu, -, -⟩ := regex_eq hcut
    have hci : ∃ d ∈ '/' :: cut.text, isIdentifier d = false :=
      ⟨'/', List.mem_cons_self .., by decide⟩
    have ha' := h.allowsRegex.trans ha
    have hr' : ∀ d ∈ (cut.text ++ y').head?, d ≠ '/' ∧ d ≠ '*' := by
      intro d hd
      refine hr d ?_
      rw [← whole_regex hcut, Cut.whole]
      rw [hu] at hd ⊢
      cases u <;> exact hd
    refine ⟨(s'.expression '/' cut).2, tokens_absorb s' hr' ha' hcut, ?_⟩
    refine h.after_same .literal hci rfl rfl h.opened (.inr (operandAfter_congr ?_ ?_)) hseam
    · exact head?_reverse_append (List.cons_ne_nil _ _) _ _
    · exact takeWhile_reverse_append hci _ _
  | string hq => rcases hq with rfl | rfl <;> cases hregex
  | _ => cases hregex

theorem template_closed {r m : List Char} (h : (template false r).1.text = m ++ ['\x60']) :
    (template false r).2 = false := by
  rw [Bool.eq_false_iff]
  intro hb
  have hlast := (getLast?_template false r).1 hb
  rw [h, List.getLast?_concat] at hlast
  cases hlast

theorem not_opens_of_closed {r m : List Char} (hm : ∀ c ∈ m, needsEscape c = false)
    (h : (template false r).1.text = m ++ ['\x60']) : ¬ ['$', '{'] <:+: m := by
  intro hopen
  have hr : r = m ++ ('\x60' :: (template false r).1.rest) := by
    conv_lhs => rw [← whole_template false r, Cut.whole, h]
    simp
  have hb := template_closed h
  rw [hr, template_opens hm hopen] at hb
  cases hb

theorem next_content {q : Char} {r y' m m' : List Char} (h : Level before (q :: r) s s')
    (hq : isQuote q = true) (ht : (s.next q r).1.text = q :: (m ++ [q]))
    (hf : KeepsFrame m m') (hs : ['$', '{'] <:+: m' → ['$', '{'] <:+: m) :
    ∃ s₁', s'.next q (m' ++ q :: y') = (⟨.literal, q :: (m' ++ [q]), y'⟩, s₁') ∧
      Level ((s.next q r).1.piece.marks.reverse ++ before) (s.next q r).1.rest (s.next q r).2 s₁' := by
  have hq' : isWord q = false := by
    simp only [isQuote, Bool.or_eq_true, beq_iff_eq] at hq
    rcases hq with (rfl | rfl) | rfl <;> decide
  have hqi := isIdentifier_of_not_isWord hq'
  have hread := s.reads_next q r
  have hseam := s.seam_next hq' r
  generalize s.next q r = o at *
  -- both texts end in the quote, so what stands in front of it does not matter
  have hafter : ∀ {t t' : List Char} {s₁ s₁' : Reader}, t = q :: (m ++ [q]) →
      t' = q :: (m' ++ [q]) → s₁.before = t.reverse ++ s.before →
      s₁'.before = t'.reverse ++ s'.before → s₁'.opened = s₁.opened →
      operandAfter s₁'.last = operandAfter s₁.last → Seam ⟨.literal, t⟩ o.1.rest →
      Level ((Piece.marks ⟨.literal, t⟩).reverse ++ before) o.1.rest s₁ s₁' := by
    rintro t t' s₁ s₁' rfl rfl hb hb' ho hl hs
    refine h.after .literal hb ho (fun _ => ?_) (.inr hl) (fun _ => ?_) hs
    · rw [hb, hb']
      simp
    · rw [hb, hb']
      simp [hqi]
  cases hread with
  | string hqs =>
    refine ⟨(s'.string q ⟨m' ++ [q], y'⟩).2, ?_, ?_⟩
    · rw [(Reads.string hqs).next_eq, quoted_content hq hf.plain']
      rfl
    · exact hafter ht rfl rfl rfl h.opened (operandAfter_eq hq' _ _) hseam
  | template =>
    have htext : (template false r).1.text = m ++ ['\x60'] := (List.cons.inj ht).2
    have hb := template_closed htext
    have hs' : ¬ ['$', '{'] <:+: m' := fun hopen => not_opens_of_closed hf.plain htext (hs hopen)
    refine ⟨(s'.piece '\x60' s'.opened ⟨m' ++ ['\x60'], y'⟩ false).2, ?_, ?_⟩
    · rw [(Reads.template _).next_eq, template_content hf.plain' hs']
      rfl
    · refine hafter ht rfl rfl rfl ?_ ?_ hseam
      · rw [Reader.piece, Reader.piece, h.opened, hb]
      · rw [Reader.piece, Reader.piece, hb]
        exact operandAfter_eq hq' _ _
  | mark hm =>
    simp only [isQuote, Bool.or_eq_true, beq_iff_eq] at hq
    rcases hq with (rfl | rfl) | rfl <;> exact absurd rfl (hm _ (by decide))
  | _ => cases hq

end

/-! ### The new text -/

theorem Alike.isWord_head {F : List Char → List Char → Prop} {y y' : List Char} (h : Alike F y y')
    (hy : ∀ c ∈ y.head?, isWord c = false) : ∀ c ∈ y'.head?, isWord c = false := by
  intro c hc
  rcases h.head_cases with he | ⟨d, d', hd, -, hs, -⟩
  · exact hy c (by rw [he]; exact hc)
  · have hw := hy d hd
    rw [isWord_of_startsName hs] at hw
    cases hw

/-- **The new text is read as the new tokens**, of which regular expressions have taken letters. -/
theorem tokens_redrawn {L : Bool → Bool → Prop} {ren : Site → String} {before : List Mark}
    {s s' : Reader} {cs : List Char} (h : Level before cs s s')
    (hsafe : Safe ren L before (tokens s cs)) :
    tokens s' (textOf (redrawn ren before (tokens s cs))) =
      settle (redrawn ren before (tokens s cs)) := by
  fun_induction tokens s cs generalizing before s' with
  | case1 => exact tokens_nil s'
  | case2 s c r hc ih =>
    have hall : ∀ d ∈ c :: r.takeWhile isWord, isWord d = true :=
      List.forall_mem_cons.2 ⟨hc, List.all_eq_true.1 List.all_takeWhile⟩
    have hnext : ∀ d ∈ (r.dropWhile isWord).head?, isWord d = false := head?_dropWhile
    have halike := alike_redrawn hsafe.tail
    have hr := redrawn_redraw hsafe.head
    have ih := fun {t} (ht : Level _ _ _ t) => ih ht hsafe.tail
    have hcs : c :: r = (c :: r.takeWhile isWord) ++ r.dropWhile isWord := by simp
    rw [hcs] at h
    rw [redrawn, textOf_cons]
    rw [textOf_tokens] at halike hr ⊢
    have hnext' := halike.isWord_head hnext
    generalize Piece.redraw _ _ _ _ = p' at hr ⊢
    generalize hw : c :: r.takeWhile isWord = w at *
    have hne : w ≠ [] := by simp [← hw]
    generalize hp : (⟨.code, w⟩ : Piece) = p at hr
    cases hr with
    | same =>
      subst hp
      rw [tokens_word_append s' hne hall hnext', ih (h.word_same hne hall hnext)]
      rfl
    | @word v v' hv hv' hk =>
      obtain rfl : w = v.toList := (Piece.mk.inj hp).2
      rw [tokens_word_append s' hv'.ne_nil hv'.isWord hnext', ih (h.word_other hv hv' hk hnext)]
      rfl
    | content => cases hp
  | case3 s c r hc ih =>
    rw [Bool.not_eq_true] at hc
    have halike := alike_redrawn hsafe.tail
    have hr := redrawn_redraw hsafe.head
    have ih := fun {t} (ht : Level _ _ _ t) => ih ht hsafe.tail
    rw [redrawn, textOf_cons]
    rw [textOf_tokens] at halike hr ⊢
    generalize Piece.redraw _ _ _ _ = p' at hr ⊢
    obtain ⟨t, ht⟩ := List.head?_eq_some_iff.1 (s.head?_text_next c r)
    generalize hp : (s.next c r).1.piece = p at hr
    have htp : (s.next c r).1.text = p.text := congrArg Piece.text hp
    cases hr with
    | same =>
      subst hp
      cases hregex : (s.next c r).1.piece.isRegex with
      | true =>
        obtain ⟨s₁', hnext, hlevel⟩ := next_regex h hc hregex ht
        rw [← htp, ht, List.cons_append, hnext, ih hlevel, settle, if_pos hregex]
      | false =>
        obtain ⟨s₁', hnext, hlevel⟩ := next_same h hc halike.ahead hregex ht
        rw [settle, if_neg (by simp [hregex]), ← htp, ht, List.cons_append,
          tokens_of_not_isWord s' hc, hnext, ih hlevel, Lexeme.piece, Lexeme.piece, ht]
    | @word v v' hv =>
      -- a word would start with a character of words
      obtain ⟨d, u, hu, hd⟩ := hv.head
      rw [ht, hu, List.cons.injEq] at htp
      rw [htp.1, isWord_of_startsName hd] at hc
      cases hc
    | @content q m m' hq hm hf hs =>
      obtain rfl : c = q := by
        rw [ht, List.cons.injEq] at htp
        exact htp.1
      obtain ⟨s₁', hnext, hlevel⟩ := next_content h hq htp hf hs
      have hregex : Piece.isRegex ⟨.literal, c :: (m' ++ [c])⟩ = false := by
        have hne : c ≠ '/' := by
          rintro rfl
          cases hq
        simp [Piece.isRegex, hne]
      rw [← hp, settle, if_neg (by simp [hregex]), List.cons_append, List.append_assoc,
        List.singleton_append, tokens_of_not_isWord s' hc, hnext, ih hlevel]
      rfl

/-- The text of a source with new names is read as the tokens with the new names. -/
theorem tokensOf_redrawn {L : Bool → Bool → Prop} {ren : Site → String} {source : List Char}
    (hsafe : Safe ren L [] (tokensOf source)) :
    tokensOf (textOf (redrawn ren [] (tokensOf source))) =
      settle (redrawn ren [] (tokensOf source)) :=
  tokens_redrawn ⟨rfl, rfl, fun _ => Iff.rfl, .inr rfl, fun _ => rfl, seamed_nil _⟩ hsafe

end Renaming.Source
