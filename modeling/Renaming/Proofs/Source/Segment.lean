import Renaming.Proofs.Source.Bytes

/-!
The segments of a source. They are its pieces with their positions (`segmentsOf_eq`), so they cut
the source into parts that are not empty and between which nothing is left out: `partition`.
-/

namespace Renaming.Source

open Renaming.Text (isBlank)

/-! ### What the reader has behind it -/

/-- The text up to the last character that counts is a part of the text so far. -/
theorem Reads.last_suffix {s : Reader} {c : Char} {r : List Char} {o : Lexeme × Reader}
    (h : Reads s c r o) (hlast : s.last <:+ s.before) : o.2.last <:+ o.2.before := by
  have hcode : ∀ (s' : Reader) (d : Char), s'.last = s.last → s'.before = s.before →
      (s'.code d r).2.last <:+ (s'.code d r).2.before := by
    intro s' d hl hb
    simp only [Reader.code]
    split
    · rw [hl, hb]
      exact hlast.trans (List.suffix_cons ..)
    · exact List.suffix_rfl
  have hpiece : ∀ (d : Char) opened (cut : Cut) b,
      (s.piece d opened cut b).2.last <:+ (s.piece d opened cut b).2.before := by
    intro d opened cut b
    simp only [Reader.piece]
    split
    · exact List.nil_suffix
    · exact ⟨cut.text.reverse, by simp⟩
  cases h with
  | line u => exact hlast.trans (List.suffix_append ..)
  | block u => exact hlast.trans (List.suffix_append ..)
  | regex => exact List.suffix_rfl
  | slash => exact hcode s '/' rfl rfl
  | string => exact ⟨(quoted c false r).text.reverse, by simp [Reader.string]⟩
  | template r => exact hpiece ..
  | resume => exact hpiece ..
  | openBrace r => exact hcode _ '{' rfl rfl
  | closeBrace => exact hcode _ '}' rfl rfl
  | mark => exact hcode s c rfl rfl

namespace Segment

/-! ### Where a regular expression may start -/

section

variable {source a r : List Char} {c : Char}

theorem byteLength_reverse (t : List Char) : byteLength t.reverse = byteLength t := by
  induction t with
  | nil => rfl
  | cons c t ih =>
    rw [List.reverse_cons, byteLength_append, ih, ← List.singleton_append (l := t),
      byteLength_append, Nat.add_comm]

theorem isIdentifier_of_le (h : 0x80 ≤ c.toNat) : isIdentifier c = false := by
  have hc : c.toNat = c.val.toNat := rfl
  have hdigit : c.isDigit = false := by
    simp only [Char.isDigit, UInt32.le_iff_toNat_le, Bool.and_eq_false_iff,
      decide_eq_false_iff_not, ge_iff_le]
    have h9 : '9'.val.toNat = 57 := rfl
    omega
  simp [isIdentifier, Char.isAlphanum, isAlpha_of_le h, hdigit,
    ne_of_le h (show '_'.toNat < 0x80 by decide), ne_of_le h (show '$'.toNat < 0x80 by decide)]

theorem isOperator_of_le (h : 0x80 ≤ c.toNat) : isOperator c = false := by
  have hlist : ("(,=:[!&|?\x7b;+-*%<>~^".toList.all fun d => d.toNat < 0x80) = true := by decide
  rw [isOperator, List.contains_eq_mem, decide_eq_false_iff_not]
  intro hmem
  have := of_decide_eq_true (List.all_eq_true.1 hlist c hmem)
  omega

/-- The last byte of a character is in the classes of ASCII characters that the character is in. -/
theorem byteAt?_last (h : source = (a ++ [c]) ++ r) :
    ∃ d, byteAt? (encoded source) (byteLength (a ++ [c]) - 1) = some d ∧
      ∀ p : Char → Bool, (∀ x : Char, 0x80 ≤ x.toNat → p x = false) → p d = p c := by
  have h' : source = a ++ c :: r := by
    rw [h, List.append_assoc]
    rfl
  by_cases hc : c.toNat < 0x80
  · rw [← byteLength_add_one hc, Nat.add_sub_cancel]
    exact ⟨c, byteAt?_of_lt h' hc, fun _ _ => rfl⟩
  · have hpos : 0 < byteLength [c] := byteLength_pos (by simp)
    obtain ⟨d, hd, hhigh⟩ := byteAt?_of_le h' (Nat.not_lt.1 hc) (k := byteLength [c] - 1) (by omega)
    rw [byteLength_append, Nat.add_sub_assoc hpos]
    exact ⟨d, hd, fun p hp => by rw [hp d hhigh, hp c (Nat.not_lt.1 hc)]⟩

theorem wordStart_eq {t : List Char} (h : source = t.reverse ++ r) :
    wordStart (encoded source) (byteLength t) = byteLength (t.dropWhile isIdentifier) := by
  induction t generalizing r with
  | nil => simp [wordStart]
  | cons c t ih =>
    rw [List.reverse_cons] at h
    have hlen : byteLength (c :: t) = byteLength (t.reverse ++ [c]) := by
      rw [← List.reverse_cons, byteLength_reverse]
    have hpos : 0 < byteLength (c :: t) := byteLength_pos (by simp)
    obtain ⟨d, hd, hclass⟩ := byteAt?_last h
    have hid := hclass isIdentifier fun x hx => isIdentifier_of_le hx
    obtain ⟨n, hn⟩ := Nat.exists_eq_succ_of_ne_zero hpos.ne'
    rw [← hlen, hn, Nat.succ_sub_one] at hd
    rw [hn, wordStart, hd, Option.any_some, hid]
    by_cases hc : isIdentifier c = true
    · have hlt : c.toNat < 0x80 := by
        refine Nat.not_le.1 fun hle => ?_
        rw [isIdentifier_of_le hle] at hc
        cases hc
      have hn' : n = byteLength t := by
        rw [← byteLength_add_one hlt, byteLength_reverse] at hlen
        omega
      rw [if_pos hc, List.dropWhile_cons_of_pos hc, hn']
      exact ih (by rw [h, List.append_assoc])
    · rw [if_neg hc, List.dropWhile_cons_of_neg hc, hn]

theorem map_ofUInt8_utf8 {w : List Char} (hw : ∀ c ∈ w, isIdentifier c = true) :
    (utf8 w).map Char.ofUInt8 = w := by
  induction w with
  | nil => rfl
  | cons c w ih =>
    have hlt : c.toNat < 0x80 := by
      refine Nat.not_le.1 fun hle => ?_
      have := hw c (List.mem_cons_self ..)
      rw [isIdentifier_of_le hle] at this
      cases this
    rw [← List.singleton_append, utf8_append, utf8_of_lt hlt, List.map_append,
      ih fun d hd => hw d (List.mem_cons_of_mem _ hd), List.map_singleton, ofUInt8_ofNat hlt]

theorem wordAt_eq {w : List Char} (h : source = a ++ w ++ r)
    (hw : ∀ c ∈ w, isIdentifier c = true) :
    wordAt (encoded source) (byteLength a) (byteLength (a ++ w)) = String.ofList w := by
  rw [wordAt, Array.toList_extract, encoded, List.extract_eq_take_drop, h, List.append_assoc,
    drop_utf8_append, byteLength_append, Nat.add_sub_cancel_left, take_utf8_append,
    map_ofUInt8_utf8 hw]

/-- The position of the last byte of a text that is read from its end. -/
def lastByte : List Char → Option Nat
  | [] => none
  | c :: l => some (byteLength (c :: l) - 1)

theorem allowsRegex_eq {s : Reader} (h : source = s.before.reverse ++ r)
    (hlast : s.last <:+ s.before) :
    allowsRegex (encoded source) (byteLength s.before) (lastByte s.last) = s.allowsRegex := by
  obtain ⟨opened, last, before⟩ := s
  simp only at h hlast
  have hangle : (byteLength before == 0 ||
      byteAt? (encoded source) (byteLength before - 1) != some '<') = (before.head? != some '<') := by
    rcases before with _ | ⟨c, t⟩
    · rfl
    · have hpos : 0 < byteLength (c :: t) := byteLength_pos (by simp)
      rw [List.reverse_cons] at h
      obtain ⟨d, hd, hclass⟩ := byteAt?_last h
      rw [← List.reverse_cons, byteLength_reverse] at hd
      have := hclass (· == '<') fun x hx => beq_false_of_ne (ne_of_le hx (by decide))
      rw [hd, beq_false_of_ne hpos.ne', Bool.false_or, List.head?_cons, bne, bne,
        Option.some_beq_some, Option.some_beq_some, this]
  unfold allowsRegex Reader.allowsRegex
  rw [hangle]
  congr 1
  rcases last with _ | ⟨c, t⟩
  · rfl
  · obtain ⟨u, rfl⟩ := hlast
    rw [List.reverse_append, List.append_assoc] at h
    have hpos : 0 < byteLength (c :: t) := byteLength_pos (by simp)
    have h' := h
    rw [List.reverse_cons] at h'
    obtain ⟨d, hd, hclass⟩ := byteAt?_last h'
    rw [← List.reverse_cons, byteLength_reverse] at hd
    simp only [lastByte, hd, Nat.sub_add_cancel hpos, wordStart_eq h,
      hclass isIdentifier fun x hx => isIdentifier_of_le hx,
      hclass isOperator fun x hx => isOperator_of_le hx]
    have hsource : source = ((c :: t).dropWhile isIdentifier).reverse ++
        ((c :: t).takeWhile isIdentifier).reverse ++ (u.reverse ++ r) := by
      rw [← List.reverse_append, List.takeWhile_append_dropWhile, h]
    have hword := wordAt_eq hsource fun x hx =>
      List.all_eq_true.1 List.all_takeWhile x (List.mem_reverse.1 hx)
    rw [← List.reverse_append, List.takeWhile_append_dropWhile, byteLength_reverse,
      byteLength_reverse] at hword
    rw [hword, lastWord]

/-! ### What is found at a position -/

/-- What the segmenter remembers where the reader has got to. -/
def memory (s : Reader) : Memory := ⟨s.opened, lastByte s.last⟩

/-- A lexeme as what is found at a position. -/
def found (i : Nat) (l : Lexeme) : Found :=
  if l.kind = .code then .code else .piece l.kind (i + byteLength l.text)

theorem lastByte_cons (hc : c.toNat < 0x80) (t : List Char) :
    lastByte (c :: t) = some (byteLength t) := by
  rw [lastByte, ← List.singleton_append, byteLength_append, byteLength_of_lt hc,
    Nat.add_sub_cancel_left]

theorem lastByte_of_ne_nil {t : List Char} (h : t ≠ []) :
    lastByte t = some (byteLength t - 1) := by
  cases t with
  | nil => exact absurd rfl h
  | cons c t => rfl

theorem find_slash {bytes : Array UInt8} {m : Memory} {i : Nat}
    (h : ∀ c ∈ byteAt? bytes (i + 1), c ≠ '/' ∧ c ≠ '*') : find bytes m i '/' =
      if allowsRegex bytes i m.last then
        match regexEnd? bytes false (i + 1) with
        | some stop => (.piece .literal stop, { m with last := some (stop - 1) })
        | none => (.code, { m with last := some i })
      else (.code, { m with last := some i }) := by
  unfold find
  split
  · next hb => exact absurd rfl (h _ hb).1
  · next hb => exact absurd rfl (h _ hb).2
  · rfl
  all_goals simp_all

theorem find_mark {bytes : Array UInt8} {m : Memory} {i : Nat} {c : Char}
    (h : ∀ d ∈ ['/', '\'', '"', '\x60', '{', '}'], c ≠ d) :
    find bytes m i c = (.code, if isBlank c then m else { m with last := some i }) := by
  unfold find
  split
  case h_9 => rfl
  all_goals exact absurd rfl (h _ (by decide))

section

variable {s : Reader}

theorem byteLength_succ (hc : c.toNat < 0x80) (t : List Char) :
    byteLength t + 1 = byteLength (t.reverse ++ [c]) := by
  rw [← byteLength_add_one hc, byteLength_reverse]

theorem byteLength_snoc_append (t u : List Char) :
    byteLength (t.reverse ++ [c] ++ u) = byteLength t + byteLength (c :: u) := by
  rw [List.append_assoc, byteLength_append, byteLength_reverse]
  rfl

/-- The segmenter sees the next character if it is one of ASCII. -/
theorem byteAt?_succ_eq_some_iff (h : source = s.before.reverse ++ c :: r) (hc : c.toNat < 0x80)
    {d : Char} (hd : d.toNat < 0x80) :
    byteAt? (encoded source) (byteLength s.before + 1) = some d ↔ r.head? = some d := by
  rw [byteLength_succ hc]
  exact byteAt?_eq_some_iff (eq_snoc_append h) hd

theorem memory_code (hc : c.toNat < 0x80) (s : Reader) (r : List Char) :
    memory (s.code c r).2 =
      if isBlank c then memory s else ⟨s.opened, some (byteLength s.before)⟩ := by
  simp only [Reader.code, memory]
  split
  · rfl
  · rw [lastByte_cons hc]

theorem memory_piece (hc : c.toNat < 0x80) (opened : List Brace) (cut : Cut) (b : Bool) :
    memory (s.piece c opened cut b).2 =
      if b then ⟨.substitution :: opened, none⟩ else ⟨opened, some (byteLength s.before)⟩ := by
  cases b with
  | true => rfl
  | false => simp [Reader.piece, memory, lastByte_cons hc]

theorem memory_expression (c : Char) (cut : Cut) :
    memory (s.expression c cut).2 =
      { memory s with last := some (byteLength s.before + byteLength (c :: cut.text) - 1) } := by
  simp only [memory, Reader.expression]
  rw [lastByte_of_ne_nil (by simp), byteLength_append, byteLength_reverse, Nat.add_comm]

theorem find_line {u : List Char} (h : source = s.before.reverse ++ '/' :: '/' :: u) :
    find (encoded source) (memory s) (byteLength s.before) '/' =
      (.piece .comment (byteLength s.before + byteLength ('/' :: '/' :: (lineComment u).text)),
        memory s) := by
  have hend := lineEnd_eq (eq_snoc_append (eq_snoc_append h))
  rw [← byteLength_add_one (by decide), ← byteLength_succ (by decide), List.append_assoc _ ['/'],
    byteLength_snoc_append] at hend
  simp only [find, (byteAt?_succ_eq_some_iff h (by decide) (by decide)).2 (List.head?_cons ..)]
  rw [hend]
  rfl

theorem find_block {u : List Char} (h : source = s.before.reverse ++ '/' :: '*' :: u) :
    find (encoded source) (memory s) (byteLength s.before) '/' =
      (.piece .comment (byteLength s.before + byteLength ('/' :: '*' :: (blockComment u).text)),
        memory s) := by
  have hend := blockEnd_eq (eq_snoc_append (eq_snoc_append h))
  rw [← byteLength_add_one (by decide), ← byteLength_succ (by decide), List.append_assoc _ ['*'],
    byteLength_snoc_append] at hend
  simp only [find, (byteAt?_succ_eq_some_iff h (by decide) (by decide)).2 (List.head?_cons ..)]
  rw [hend]
  rfl

/-- A slash that opens no comment: the rest of the source decides on a regular expression. -/
theorem find_expression (h : source = s.before.reverse ++ '/' :: r) (hlast : s.last <:+ s.before)
    (hr : ∀ d ∈ r.head?, d ≠ '/' ∧ d ≠ '*') :
    find (encoded source) (memory s) (byteLength s.before) '/' =
      if s.allowsRegex then
        match regex false false r with
        | some cut => (.piece .literal (byteLength s.before + byteLength ('/' :: cut.text)),
            memory (s.expression '/' cut).2)
        | none => (.code, memory (s.code '/' r).2)
      else (.code, memory (s.code '/' r).2) := by
  have hslash : '/'.toNat < 0x80 := by decide
  have hnext : ∀ d ∈ byteAt? (encoded source) (byteLength s.before + 1), d ≠ '/' ∧ d ≠ '*' := by
    refine fun d hd => ⟨?_, ?_⟩
    · rintro rfl
      exact (hr _ ((byteAt?_succ_eq_some_iff h hslash hslash).1 hd)).1 rfl
    · rintro rfl
      exact (hr _ ((byteAt?_succ_eq_some_iff h hslash (by decide)).1 hd)).2 rfl
  have hallows : allowsRegex (encoded source) (byteLength s.before) (memory s).last =
      s.allowsRegex := allowsRegex_eq h hlast
  have hend := regexEnd?_eq false false (eq_snoc_append h)
  rw [Bool.toNat_false, Nat.add_zero, ← byteLength_succ hslash] at hend
  rw [find_slash hnext, hallows, hend, memory_code hslash]
  cases regex false false r with
  | none => rfl
  | some cut =>
    simp only [Option.map_some, byteLength_snoc_append, memory_expression]
    rfl

theorem find_quoted {q : Char} (h : source = s.before.reverse ++ q :: r)
    (hq : q = '\'' ∨ q = '"') :
    find (encoded source) (memory s) (byteLength s.before) q =
      (.piece .literal (byteLength s.before + byteLength (q :: (quoted q false r).text)),
        memory (s.string q (quoted q false r)).2) := by
  have hascii : q.toNat < 0x80 := by
    rcases hq with rfl | rfl <;> decide
  have hend := quotedEnd_eq hascii false (eq_snoc_append h)
  rw [Bool.toNat_false, Nat.add_zero, ← byteLength_succ hascii, byteLength_snoc_append] at hend
  have hfind : find (encoded source) (memory s) (byteLength s.before) q =
      (.piece .literal (quotedEnd (encoded source) q (byteLength s.before + 1)),
        { memory s with last := some (byteLength s.before) }) := by
    rcases hq with rfl | rfl <;> rfl
  rw [hfind, hend]
  simp [Reader.string, memory, lastByte_cons hascii]

/-- The part of a template from the character at the reader on. -/
theorem templatePiece_eq (h : source = s.before.reverse ++ c :: r) (hc : c.toNat < 0x80)
    (opened : List Brace) :
    templatePiece (encoded source) opened (byteLength s.before) =
      (found (byteLength s.before)
        (s.piece c opened (template false r).1 (template false r).2).1,
        memory (s.piece c opened (template false r).1 (template false r).2).2) := by
  have hend := templateEnd_eq false (eq_snoc_append h)
  rw [Bool.toNat_false, Nat.add_zero, ← byteLength_succ hc, byteLength_snoc_append] at hend
  rw [templatePiece, hend, memory_piece hc]
  rfl

theorem find_eq (h : source = s.before.reverse ++ c :: r) (hc : c.toNat < 0x80)
    (hlast : s.last <:+ s.before) :
    find (encoded source) (memory s) (byteLength s.before) c =
      (found (byteLength s.before) (s.next c r).1, memory (s.next c r).2) := by
  have hreads := s.reads_next c r
  generalize s.next c r = o at hreads
  cases hreads with
  | line u => exact find_line h
  | block u => exact find_block h
  | regex cut hr hallows hcut =>
    rw [find_expression h hlast hr, if_pos hallows, hcut]
    rfl
  | slash hr hnone =>
    rw [find_expression h hlast hr]
    cases hallows : s.allowsRegex with
    | false => rfl
    | true =>
      rw [hnone hallows]
      rfl
  | string hq => exact find_quoted h hq
  | template r => exact templatePiece_eq h hc s.opened
  | resume opened ho =>
    have hfind : find (encoded source) (memory s) (byteLength s.before) '}' =
        templatePiece (encoded source) opened (byteLength s.before) := by
      simp only [find, memory, ho]
    rw [hfind]
    exact templatePiece_eq h hc opened
  | openBrace r =>
    rw [memory_code hc]
    rfl
  | closeBrace ho =>
    rw [memory_code hc]
    cases hopened : s.opened with
    | nil => simp [find, memory, hopened, found, Reader.code, isBlank]
    | cons b t =>
      cases b with
      | block => simp [find, memory, hopened, found, Reader.code, isBlank]
      | substitution => exact absurd hopened (ho t)
  | mark hm =>
    rw [find_mark hm, memory_code hc]
    rfl

end

/-! ### The segments of a source -/

theorem segmentsFrom_of_none {bytes : Array UInt8} {m : Memory} {k i : Nat}
    (h : byteAt? bytes i = none) : segmentsFrom bytes m k i = flush k bytes.size := by
  rw [segmentsFrom]
  split <;> simp_all

theorem segmentsFrom_of_code {bytes : Array UInt8} {m m' : Memory} {k i : Nat} {c : Char}
    (h : byteAt? bytes i = some c) (hf : find bytes m i c = (.code, m')) :
    segmentsFrom bytes m k i = segmentsFrom bytes m' k (i + 1) := by
  rw [segmentsFrom]
  split
  · simp_all
  · split <;> simp_all

theorem segmentsFrom_of_piece {bytes : Array UInt8} {m m' : Memory} {k i stop : Nat} {kind : Kind}
    {c : Char} (h : byteAt? bytes i = some c) (hf : find bytes m i c = (.piece kind stop, m')) :
    segmentsFrom bytes m k i =
      flush k i ++ ⟨kind, i, stop⟩ :: segmentsFrom bytes m' stop stop := by
  rw [segmentsFrom]
  split
  · simp_all
  · split <;> simp_all

/-- Bytes outside ASCII are code. -/
theorem segmentsFrom_of_le {m : Memory} {k i n : Nat} (hn : ∀ j ≤ n, ∃ d,
    byteAt? (encoded source) (i + j) = some d ∧ 0x80 ≤ d.toNat) :
    segmentsFrom (encoded source) m k i =
      segmentsFrom (encoded source) { m with last := some (i + n) } k (i + n + 1) := by
  have hfind : ∀ (m : Memory) i (d : Char), 0x80 ≤ d.toNat →
      find (encoded source) m i d = (.code, { m with last := some i }) := by
    intro m i d hd
    have hne : ∀ e : Char, e.toNat < 0x80 → d ≠ e := fun e he => ne_of_le hd he
    have hmarks : ∀ e ∈ ['/', '\'', '"', '\x60', '{', '}'], e.toNat < 0x80 := by simp
    have hblank : isBlank d = false := by
      simp [isBlank, hne]
    rw [find_mark fun e he => hne e (hmarks e he), hblank]
    rfl
  induction n with
  | zero =>
    obtain ⟨d, hd, hhigh⟩ := hn 0 (Nat.le_refl 0)
    exact segmentsFrom_of_code hd (hfind m i d hhigh)
  | succ n ih =>
    obtain ⟨d, hd, hhigh⟩ := hn (n + 1) (Nat.le_refl _)
    rw [ih fun j hj => hn j (Nat.le_succ_of_le hj)]
    exact segmentsFrom_of_code hd (hfind _ _ d hhigh)

/-- Pieces as segments. -/
def segmentsAt (start : Nat) (ps : List Piece) : List Segment :=
  (located start ps).map fun (p, start, stop) => ⟨p.kind, start, stop⟩

/-- Code that is not closed yet, in front of pieces. -/
def pending (w : List Char) (ps : List Piece) : List Piece :=
  if w = [] then ps else Piece.merge ⟨.code, w⟩ ps

theorem pending_merge (w : List Char) (c : Char) (ps : List Piece) :
    pending w (Piece.merge ⟨.code, [c]⟩ ps) = pending (w ++ [c]) ps := by
  unfold pending
  split
  · next hw => simp [hw]
  · rw [if_neg (by simp), merge_merge]

theorem flush_eq (a w : List Char) (ps : List Piece) {p : Piece} (hp : p.kind ≠ .code) :
    segmentsAt (byteLength a) (pending w (p :: ps)) =
      flush (byteLength a) (byteLength (a ++ w)) ++ segmentsAt (byteLength (a ++ w)) (p :: ps) := by
  rw [byteLength_append]
  unfold pending flush
  split
  · next hw => simp [hw]
  · next hw =>
    have hpos := byteLength_pos hw
    rw [Piece.merge, if_neg (by simp [hp]), if_pos (by omega)]
    rfl

theorem merge_of_ne {p : Piece} (h : p.kind ≠ .code) (ps : List Piece) :
    p.merge ps = p :: ps := by
  cases ps with
  | nil => rfl
  | cons q qs => exact if_neg fun hk => h hk.1

/-- The code of one character. -/
theorem segmentsFrom_of_kind_code {s : Reader} {k : Nat} (h : source = s.before.reverse ++ c :: r)
    (hlast : s.last <:+ s.before) (hk : (s.next c r).1.kind = .code) :
    segmentsFrom (encoded source) (memory s) k (byteLength s.before) =
      segmentsFrom (encoded source) (memory (s.next c r).2) k
        (byteLength (s.next c r).2.before) := by
  have hlen : byteLength (s.next c r).2.before = byteLength s.before + byteLength [c] := by
    rw [(s.reads_next c r).next_before, Reader.text_of_kind_code hk, byteLength_append,
      byteLength_reverse, Nat.add_comm]
  by_cases hc : c.toNat < 0x80
  · have hat := byteAt?_of_lt h hc
    rw [byteLength_reverse] at hat
    have hfind := find_eq h hc hlast
    rw [found, if_pos hk] at hfind
    rw [segmentsFrom_of_code hat hfind, hlen, byteLength_of_lt hc]
  · have hword : isWord c = true := by simp [isWord, Nat.not_lt.1 hc]
    have hpos : 0 < byteLength [c] := byteLength_pos (by simp)
    rw [segmentsFrom_of_le (n := byteLength [c] - 1) fun j hj => ?_]
    · have hmemory : memory (s.next c r).2 =
          ⟨s.opened, some (byteLength s.before + (byteLength [c] - 1))⟩ := by
        rw [s.next_of_isWord hword, ← Nat.add_sub_assoc hpos, Nat.add_comm, ← byteLength_append]
        rfl
      rw [hlen, hmemory, Nat.add_assoc, Nat.sub_add_cancel hpos]
      rfl
    · have := byteAt?_of_le h (Nat.not_lt.1 hc) (k := j) (by omega)
      rwa [byteLength_reverse] at this

theorem segmentsFrom_eq {s : Reader} {w : List Char} (h : source = s.before.reverse ++ r)
    (hlast : s.last <:+ s.before) (hw : s.before.reverse = a ++ w) :
    segmentsFrom (encoded source) (memory s) (byteLength a) (byteLength s.before) =
      segmentsAt (byteLength a) (pending w (join (lexemes s r))) := by
  fun_induction lexemes s r generalizing a w with
  | case1 s =>
    have hat := byteAt?_nil h
    rw [byteLength_reverse] at hat
    rw [segmentsFrom_of_none hat, size_encoded, h, List.append_nil, hw]
    have hjoin : join ([] : List Lexeme) = [] := rfl
    rw [byteLength_append, hjoin]
    unfold flush pending
    split
    · next hlt =>
      have hne : w ≠ [] := by
        rintro rfl
        simp at hlt
      rw [if_neg hne]
      rfl
    · next hlt =>
      have hnil : w = [] := by
        by_contra hne
        have := byteLength_pos hne
        omega
      rw [if_pos hnil]
      rfl
  | case2 s c r ih =>
    have hreads := s.reads_next c r
    have hbefore := hreads.next_before
    have hsource : source = (s.next c r).2.before.reverse ++ (s.next c r).1.rest := by
      rw [hbefore, List.reverse_append, List.reverse_reverse, List.append_assoc, s.next_whole, h]
    have hlast' := hreads.last_suffix hlast
    have hjoin : join ((s.next c r).1 :: lexemes (s.next c r).2 (s.next c r).1.rest) =
        (s.next c r).1.piece.merge (join (lexemes (s.next c r).2 (s.next c r).1.rest)) :=
      attach_eq_merge _ _
    rw [hjoin]
    by_cases hk : (s.next c r).1.kind = .code
    · have hpiece : (s.next c r).1.piece = ⟨.code, [c]⟩ := by
        rw [Lexeme.piece, hk, Reader.text_of_kind_code hk]
      rw [hpiece, pending_merge, segmentsFrom_of_kind_code h hlast hk]
      refine ih hsource hlast' ?_
      rw [hbefore, Reader.text_of_kind_code hk, List.reverse_append, List.reverse_reverse, hw,
        List.append_assoc]
    · have hc : c.toNat < 0x80 := by
        refine Nat.not_le.1 fun hle => hk ?_
        rw [s.next_of_isWord (by simp [isWord, hle])]
      have hat := byteAt?_of_lt h hc
      rw [byteLength_reverse] at hat
      have hfind := find_eq h hc hlast
      rw [found, if_neg hk] at hfind
      have hstop : byteLength s.before + byteLength (s.next c r).1.text =
          byteLength (s.next c r).2.before := by
        rw [hbefore, byteLength_append, byteLength_reverse, Nat.add_comm]
      have ih := ih (a := (s.next c r).2.before.reverse) (w := []) hsource hlast' (by simp)
      rw [byteLength_reverse] at ih
      rw [segmentsFrom_of_piece hat hfind, hstop, ih, merge_of_ne hk, flush_eq _ _ _ hk, ← hw,
        byteLength_reverse, ← hstop]
      rfl

end

end Segment

theorem toUTF8_eq (source : String) : source.toUTF8.data = Segment.encoded source.toList := by
  rw [String.toUTF8_eq_toByteArray, ← String.utf8Encode_toList, List.utf8Encode, Segment.encoded, utf8,
    List.data_toByteArray]

/-- **The segments of a source** are its pieces with their positions. -/
theorem segmentsOf_eq (source : String) :
    segmentsOf source = Segment.segmentsAt 0 (pieces source.toList) := by
  rw [segmentsOf, toUTF8_eq]
  exact Segment.segmentsFrom_eq (a := []) (w := []) (s := .start) rfl List.suffix_rfl rfl

/-! ### Nothing is left out -/

/-- The segments cut a source into parts. -/
structure Partition (source : String) (segments : List Segment) : Prop where
  proper : ∀ s ∈ segments, s.start < s.stop
  starts : ∀ s ∈ segments.head?, s.start = 0
  contiguous : segments.IsChain fun s t => s.stop = t.start
  ends : ∀ s ∈ segments.getLast?, s.stop = source.utf8ByteSize
  eq_nil_iff : segments = [] ↔ source = ""
  /-- No character is cut in two. -/
  valid : ∀ s ∈ segments,
    (String.Pos.Raw.mk s.start).IsValid source ∧ (String.Pos.Raw.mk s.stop).IsValid source
  /-- Stretches of code are as long as possible. -/
  alternates : segments.IsChain fun s t => ¬ (s.kind = .code ∧ t.kind = .code)
  /-- Each segment has a text, and the texts make up the source. -/
  texts : ∃ texts : List (List Char),
    segments.map (·.text? source) = texts.map some ∧ texts.flatten = source.toList

/-- No two pieces of code are adjacent. -/
theorem isChain_mergeAll (ps : List Piece) :
    (mergeAll ps).IsChain fun p q => ¬ (p.kind = .code ∧ q.kind = .code) := by
  induction ps with
  | nil => exact .nil
  | cons p ps ih =>
    change List.IsChain _ (p.merge (mergeAll ps))
    cases h : mergeAll ps with
    | nil => exact .singleton p
    | cons q qs =>
      rw [h] at ih
      rw [Piece.merge]
      split
      · next hk =>
        -- the longer piece stands where the first one stood
        cases ih with
        | singleton => exact .singleton _
        | cons_cons hq hqs => exact .cons_cons (fun hk' => hq ⟨hk.2, hk'.2⟩) hqs
      · next hk => exact .cons_cons hk ih

theorem text_ne_nil_of_mem_mergeAll {ps : List Piece} (h : ∀ p ∈ ps, p.text ≠ []) :
    ∀ p ∈ mergeAll ps, p.text ≠ [] := by
  induction ps with
  | nil => simp [mergeAll]
  | cons p ps ih =>
    obtain ⟨hp, hps⟩ := List.forall_mem_cons.1 h
    have ih := ih hps
    rcases mergeAll_cons p ps with ⟨-, q, qs, hm, -, hj⟩ | hj
    · rw [hm] at ih
      rw [hj]
      exact List.forall_mem_cons.2 ⟨by simp [hp], (List.forall_mem_cons.1 ih).2⟩
    · rw [hj]
      exact List.forall_mem_cons.2 ⟨hp, ih⟩

namespace Segment

theorem byteLength_toList (source : String) : byteLength source.toList = source.utf8ByteSize := by
  rw [byteLength, String.ofList_toList]

theorem mem_segmentsAt {start : Nat} {ps : List Piece} {s : Segment} (h : s ∈ segmentsAt start ps) :
    ∃ xs p ys, ps = xs ++ p :: ys ∧ s = ⟨p.kind, start + byteLength (textOf xs),
      start + byteLength (textOf xs) + byteLength p.text⟩ := by
  induction ps generalizing start with
  | nil => cases h
  | cons p ps ih =>
    rcases List.mem_cons.1 h with rfl | h
    · exact ⟨[], p, ps, rfl, by simp⟩
    · obtain ⟨xs, q, ys, rfl, rfl⟩ := ih h
      exact ⟨p :: xs, q, ys, rfl, by simp [Nat.add_assoc]⟩

theorem map_kind_segmentsAt (start : Nat) (ps : List Piece) :
    (segmentsAt start ps).map Segment.kind = ps.map Piece.kind := by
  induction ps generalizing start with
  | nil => rfl
  | cons p ps ih => exact congrArg (p.kind :: ·) (ih _)

theorem isChain_segmentsAt (start : Nat) (ps : List Piece) :
    (segmentsAt start ps).IsChain fun s t => s.stop = t.start := by
  induction ps generalizing start with
  | nil => exact .nil
  | cons p ps ih =>
    refine (ih (start + byteLength p.text)).cons fun t ht => ?_
    cases ps with
    | nil => cases ht
    | cons q qs =>
      obtain rfl := Option.some.inj ht
      rfl

theorem stop_of_getLast? {start : Nat} {ps : List Piece} {s : Segment}
    (h : s ∈ (segmentsAt start ps).getLast?) : s.stop = start + byteLength (textOf ps) := by
  induction ps generalizing start with
  | nil => cases h
  | cons p ps ih =>
    cases ps with
    | nil =>
      have hs : Segment.mk p.kind start (start + byteLength p.text) = s := Option.some.inj h
      simp [← hs]
    | cons q qs =>
      have := @ih (start + byteLength p.text) h
      rw [this, textOf_cons p, byteLength_append, Nat.add_assoc]

/-- The text between two positions that lie between characters. -/
theorem text?_eq {a t b : List Char} {source : String} (h : source.toList = a ++ t ++ b)
    (k : Kind) : text? source ⟨k, byteLength a, byteLength a + byteLength t⟩ = some t := by
  have hbytes : source.toUTF8.extract (byteLength a) (byteLength a + byteLength t) =
      (String.ofList t).toUTF8 := by
    refine ByteArray.ext (Array.toList_inj.1 ?_)
    rw [ByteArray.data_extract, toUTF8_eq, toUTF8_eq, Array.toList_extract, encoded, encoded,
      List.extract_eq_take_drop, h, List.append_assoc, drop_utf8_append, Nat.add_sub_cancel_left,
      take_utf8_append, String.toList_ofList]
  have hread : String.fromUTF8? (String.ofList t).toUTF8 = some (String.ofList t) :=
    dif_pos (String.ofList t).isValidUTF8
  rw [text?, hbytes, hread, Option.map_some, String.toList_ofList]

theorem map_text?_segmentsAt {source : String} {a : List Char} {ps : List Piece}
    (h : source.toList = a ++ textOf ps) :
    (segmentsAt (byteLength a) ps).map (·.text? source) = (ps.map Piece.text).map some := by
  induction ps generalizing a with
  | nil => rfl
  | cons p ps ih =>
    have h' : source.toList = a ++ p.text ++ textOf ps := by rw [h, textOf_cons, List.append_assoc]
    have ih := ih h'
    rw [byteLength_append] at ih
    exact congrArg₂ List.cons (text?_eq h' p.kind) ih

end Segment

/-- **The segments are a partition** of the source, whatever it is. -/
theorem partition_segmentsOf (source : String) : Partition source (segmentsOf source) := by
  have hps : pieces source.toList = mergeAll (tokensOf source.toList) := pieces_eq_mergeAll _
  have htext : textOf (pieces source.toList) = source.toList := flatMap_text_pieces _
  have hne : ∀ p ∈ pieces source.toList, p.text ≠ [] := by
    rw [hps]
    exact text_ne_nil_of_mem_mergeAll (wellCut_tokens .start _).text_ne_nil
  have hmem : ∀ s ∈ segmentsOf source, ∃ a t b, source.toList = a ++ t ++ b ∧ t ≠ [] ∧
      s.start = byteLength a ∧ s.stop = byteLength (a ++ t) := by
    intro s hs
    rw [segmentsOf_eq] at hs
    obtain ⟨xs, p, ys, hp, rfl⟩ := Segment.mem_segmentsAt hs
    refine ⟨textOf xs, p.text, textOf ys, ?_, hne p (by rw [hp]; simp), by simp, by simp⟩
    rw [← htext, hp, textOf_append, textOf_cons, List.append_assoc]
  have hvalid : ∀ a b : List Char, source.toList = a ++ b →
      (String.Pos.Raw.mk (byteLength a)).IsValid source := by
    intro a b h
    refine String.Pos.Raw.isValid_iff_exists_append.2 ⟨String.ofList a, String.ofList b, ?_, rfl⟩
    rw [← String.toList_inj, String.toList_append, String.toList_ofList, String.toList_ofList, h]
  refine ⟨?_, ?_, ?_, ?_, ?_, ?_, ?_, ?_⟩
  · intro s hs
    obtain ⟨a, t, b, -, ht, h1, h2⟩ := hmem s hs
    have := byteLength_pos ht
    rw [h1, h2, byteLength_append]
    omega
  · intro s hs
    rw [segmentsOf_eq] at hs
    cases hpieces : pieces source.toList with
    | nil =>
      rw [hpieces] at hs
      cases hs
    | cons p ps =>
      rw [hpieces] at hs
      obtain rfl := Option.some.inj hs
      rfl
  · rw [segmentsOf_eq]
    exact Segment.isChain_segmentsAt 0 _
  · intro s hs
    rw [segmentsOf_eq] at hs
    rw [Segment.stop_of_getLast? hs, htext, Nat.zero_add, Segment.byteLength_toList]
  · rw [segmentsOf_eq, ← String.toList_inj]
    cases hpieces : pieces source.toList with
    | nil =>
      rw [hpieces] at htext
      exact ⟨fun _ => htext.symm, fun _ => rfl⟩
    | cons p ps =>
      refine ⟨(nomatch ·), fun h => ?_⟩
      rw [hpieces, textOf_cons, h] at htext
      exact absurd (List.append_eq_nil_iff.1 htext).1 (hne p (by rw [hpieces]; simp))
  · intro s hs
    obtain ⟨a, t, b, h, -, h1, h2⟩ := hmem s hs
    rw [h1, h2]
    exact ⟨hvalid a (t ++ b) (by rw [h, List.append_assoc]), hvalid (a ++ t) b h⟩
  · have hchain := isChain_mergeAll (tokensOf source.toList)
    let R : Kind → Kind → Prop := fun k l => ¬ (k = .code ∧ l = .code)
    rw [← hps, ← List.isChain_map (R := R) Piece.kind, ← Segment.map_kind_segmentsAt 0,
      List.isChain_map] at hchain
    rwa [segmentsOf_eq]
  · refine ⟨(pieces source.toList).map Piece.text, ?_, ?_⟩
    · rw [segmentsOf_eq]
      exact Segment.map_text?_segmentsAt (a := []) htext.symm
    · rw [← List.flatMap_def]
      exact htext

end Renaming.Source
