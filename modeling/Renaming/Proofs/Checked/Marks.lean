import Renaming.Checked.Context

/-!
The tests of what surrounds a place, on the bytes of a source with their flags. They go by positions
and check each access; the tests on marks go by lists, and no access can fail. Where each byte has a
flag both give the same answer, so none of the checks is ever the one that fails: `enclosing_eq`,
`insideTag_eq` and so on. The bytes need not be those of a text.
-/

namespace Renaming.Checked

open Renaming.Source
open Renaming.Source.Segment (byteAt? lt_size_of_byteAt?)
open Renaming.Text (isBlank)

/-! ### Bytes on both sides of a position -/

/-- The bytes between two positions with their flags, from the second position backwards. -/
def marksBetween (bytes : Array UInt8) (code : Array Bool) (start stop : Nat) : List Mark :=
  (((bytes.toList.zip code.toList).take stop).drop start).reverse.map fun (b, inCode) =>
    ⟨Char.ofUInt8 b, inCode⟩

/-- The bytes in front of a position with their flags, from there backwards. -/
def marksBefore (bytes : Array UInt8) (code : Array Bool) (pos : Nat) : List Mark :=
  marksBetween bytes code 0 pos

/-- The bytes from a position on. -/
def charsFrom (bytes : Array UInt8) (pos : Nat) : List Char :=
  (bytes.toList.drop pos).map Char.ofUInt8

section

variable {bytes : Array UInt8} {code : Array Bool} {i : Nat} {c : Char} {b : Bool}

theorem marksBetween_self (pos : Nat) : marksBetween bytes code pos pos = [] := by
  rw [marksBetween, List.drop_eq_nil_of_le (List.length_take_le ..)]
  rfl

theorem marksBetween_succ {start : Nat} (hi : start ≤ i) (h : byteAt? bytes i = some c)
    (h' : code[i]? = some b) :
    marksBetween bytes code start (i + 1) = ⟨c, b⟩ :: marksBetween bytes code start i := by
  obtain ⟨x, hx, rfl⟩ := Option.map_eq_some_iff.1 h
  have hzip : (bytes.toList.zip code.toList)[i]? = some (x, b) := by
    rw [List.getElem?_zip_eq_some]
    exact ⟨by simpa using hx, by simpa using h'⟩
  have hlt : i < (bytes.toList.zip code.toList).length := (List.getElem?_eq_some_iff.1 hzip).1
  rw [marksBetween, List.take_add_one, hzip, Option.toList_some, List.drop_append_of_le_length
    (by rwa [List.length_take_of_le (Nat.le_of_lt hlt)]), List.reverse_append]
  rfl

@[simp] theorem marksBefore_zero : marksBefore bytes code 0 = [] := rfl

theorem marksBefore_succ (h : byteAt? bytes i = some c) (h' : code[i]? = some b) :
    marksBefore bytes code (i + 1) = ⟨c, b⟩ :: marksBefore bytes code i :=
  marksBetween_succ (Nat.zero_le i) h h'

theorem charsFrom_of_some (h : byteAt? bytes i = some c) :
    charsFrom bytes i = c :: charsFrom bytes (i + 1) := by
  obtain ⟨x, hx, rfl⟩ := Option.map_eq_some_iff.1 h
  obtain ⟨hi, rfl⟩ := Array.getElem?_eq_some_iff.1 hx
  rw [charsFrom, List.drop_eq_getElem_cons (by simpa using hi)]
  simp [charsFrom]

theorem charsFrom_of_none (h : byteAt? bytes i = none) : charsFrom bytes i = [] := by
  rw [byteAt?_eq_none_iff] at h
  rw [charsFrom, List.drop_eq_nil_of_le (by simpa using h), List.map_nil]

@[simp] theorem head?_charsFrom : (charsFrom bytes i).head? = byteAt? bytes i := by
  cases h : byteAt? bytes i with
  | none => rw [charsFrom_of_none h, List.head?_nil]
  | some c => rw [charsFrom_of_some h, List.head?_cons]

/-! ### The nearest byte that is no blank -/

theorem nextMark?_cases (bytes : Array UInt8) (i : Nat) :
    (nextMark? bytes i = .ok none ∧ skipBlanks (charsFrom bytes i) = []) ∨
      ∃ n c, nextMark? bytes i = .ok (some n) ∧ byteAt? bytes n = some c ∧
        skipBlanks (charsFrom bytes i) = c :: charsFrom bytes (n + 1) := by
  induction hn : bytes.size - i generalizing i with
  | zero =>
    have hi : ¬ i < bytes.size := by omega
    rw [nextMark?, if_neg hi, charsFrom_of_none (byteAt?_eq_none_iff.2 (Nat.not_lt.1 hi))]
    exact .inl ⟨rfl, rfl⟩
  | succ n ih =>
    have hi : i < bytes.size := by omega
    obtain ⟨c, hc⟩ := exists_byteAt? hi
    rw [nextMark?, if_pos hi, byte_of_byteAt? hc, ok_bind, charsFrom_of_some hc, skipBlanks]
    by_cases hb : isBlank c = true
    · rw [if_pos hb, List.dropWhile_cons_of_pos hb]
      exact ih (i + 1) (by omega)
    · rw [if_neg hb, List.dropWhile_cons_of_neg hb]
      exact .inr ⟨i, c, rfl, hc, rfl⟩

end

section

variable {bytes : Array UInt8} {code : Array Bool} (hsize : code.size = bytes.size)
include hsize

theorem exists_mark {i : Nat} (h : i < bytes.size) :
    ∃ c b, byteAt? bytes i = some c ∧ code[i]? = some b := by
  obtain ⟨c, hc⟩ := exists_byteAt? h
  exact ⟨c, code[i], hc, Array.getElem?_eq_getElem (by omega)⟩

theorem lastMark?_cases {pos : Nat} (hpos : pos ≤ bytes.size) :
    (lastMark? bytes pos = .ok none ∧ skipBlankMarks (marksBefore bytes code pos) = []) ∨
      ∃ p c b, lastMark? bytes pos = .ok (some p) ∧ p < pos ∧ byteAt? bytes p = some c ∧
        code[p]? = some b ∧
        skipBlankMarks (marksBefore bytes code pos) = ⟨c, b⟩ :: marksBefore bytes code p := by
  induction pos with
  | zero => exact .inl ⟨rfl, rfl⟩
  | succ i ih =>
    obtain ⟨c, b, hc, hb⟩ := exists_mark hsize (i := i) (by omega)
    rw [lastMark?, byte_of_byteAt? hc, ok_bind, marksBefore_succ hc hb, skipBlankMarks]
    by_cases hblank : isBlank c = true
    · rw [if_pos hblank, List.dropWhile_cons_of_pos (p := fun m : Mark => isBlank m.char) hblank]
      exact (ih (by omega)).imp id fun ⟨p, d, f, h1, h2, h3⟩ => ⟨p, d, f, h1, by omega, h3⟩
    · rw [if_neg hblank, List.dropWhile_cons_of_neg (p := fun m : Mark => isBlank m.char) hblank]
      exact .inr ⟨i, c, b, rfl, by omega, hc, hb, rfl⟩

/-! ### Words -/

theorem takeWhile_marksBefore (p : Char → Bool) {stop : Nat} (h : stop ≤ bytes.size) :
    (((marksBefore bytes code stop).map Mark.char).takeWhile p).reverse =
      (bytes.extract (runStart bytes p stop) stop).toList.map Char.ofUInt8 := by
  induction stop with
  | zero => simp [runStart]
  | succ i ih =>
    obtain ⟨c, b, hc, hb⟩ := exists_mark hsize (i := i) (by omega)
    rw [marksBefore_succ hc hb, List.map_cons, runStart, hc, Option.any_some]
    obtain ⟨x, hx, hxc⟩ := Option.map_eq_some_iff.1 hc
    obtain ⟨hi, hxi⟩ := Array.getElem?_eq_some_iff.1 hx
    have hle : runStart bytes p i ≤ i := runStart_le p i
    by_cases hp : p c = true
    · rw [if_pos hp, List.takeWhile_cons_of_pos hp, List.reverse_cons, ih (by omega)]
      simp only [Array.toList_extract, List.extract_eq_take_drop]
      rw [Nat.succ_sub hle, List.take_add_one]
      simp [hxc, hxi, Nat.add_sub_cancel' hle, hi]
    · rw [if_neg hp, List.takeWhile_cons_of_neg hp]
      simp

theorem wordEnding_marksBefore (p : Char → Bool) {i : Nat} (h : i < bytes.size) :
    wordEnding bytes p i =
      .ok (lastWord p ((marksBefore bytes code (i + 1)).map Mark.char)) := by
  rw [wordEnding_eq p h, lastWord, takeWhile_marksBefore hsize p h, Segment.wordAt]

/-! ### Keys -/

theorem enclosing_eq (depth : Nat) {pos : Nat} (hpos : pos ≤ bytes.size) :
    enclosing bytes code depth pos = .ok (innermost depth (marksBefore bytes code pos)) := by
  induction pos generalizing depth with
  | zero => simp [enclosing, innermost]
  | succ i ih =>
    have ih := fun depth => ih depth (Nat.le_of_succ_le hpos)
    obtain ⟨c, b, hc, hb⟩ := exists_mark hsize (i := i) (by omega)
    rw [enclosing, flag_of_getElem? hb, ok_bind, marksBefore_succ hc hb]
    cases b with
    | false =>
      simpa only [innermost, Bool.false_eq_true, if_false, Bool.not_false, if_true] using ih depth
    | true =>
      simp only [innermost, if_true, byte_of_byteAt? hc, ok_bind, Bool.not_true, Bool.false_eq_true,
        if_false]
      split
      · exact ih _
      · split
        · cases depth with
          | zero => rfl
          | succ depth =>
            rw [if_neg (Nat.succ_ne_zero depth), less_of_le (Nat.le_add_left 1 depth), ok_bind]
            exact ih depth
        · exact ih depth

omit hsize in
theorem colonFollows_eq (stop : Nat) :
    colonFollows bytes stop = .ok (Source.colonFollows (charsFrom bytes stop)) := by
  rw [colonFollows, colonAt?, Source.colonFollows]
  rcases nextMark?_cases bytes stop with ⟨hnext, hskip⟩ | ⟨n, c, hnext, hc, hskip⟩
  · rw [hnext, hskip]
    rfl
  · rw [hnext, hskip, ok_bind]
    simp only [byte_of_byteAt? hc, ok_bind]
    by_cases hcolon : c = ':'
    · subst hcolon
      simp [head?_charsFrom]
    · rw [if_neg hcolon]
      by_cases hquestion : c = '?' ∧ byteAt? bytes (n + 1) = some ':'
      · rw [if_pos hquestion, charsFrom_of_some hquestion.2, hquestion.1]
        simp [head?_charsFrom]
      · rw [if_neg hquestion]
        split
        · next h => exact absurd (List.cons.inj h).1 hcolon
        · next h =>
          obtain ⟨hc', hr⟩ := List.cons.inj h
          refine absurd ⟨hc', ?_⟩ hquestion
          rw [← head?_charsFrom, hr, List.head?_cons]
        · rfl

theorem entryStarts_eq {start : Nat} (hstart : start ≤ bytes.size) :
    entryStarts bytes code start = .ok (Source.entryStarts (marksBefore bytes code start)) := by
  rw [entryStarts, Source.entryStarts]
  rcases lastMark?_cases hsize hstart with ⟨hlast, hskip⟩ | ⟨p, c, b, hlast, -, hc, -, hskip⟩
  · rw [hlast, hskip]
    rfl
  · rw [hlast, hskip, ok_bind]
    simp only [byte_of_byteAt? hc, ok_bind, enclosing_eq hsize 0 hstart]
    by_cases hbrace : c = '{'
    · simp [hbrace]
    · rw [if_neg hbrace, beq_false_of_ne hbrace, Bool.false_or]
      by_cases hsep : c = ',' ∨ c = ';'
      · rcases hsep with rfl | rfl <;> rfl
      · obtain ⟨h1, h2⟩ : c ≠ ',' ∧ c ≠ ';' := by simpa using hsep
        rw [if_neg hsep, beq_false_of_ne h1, beq_false_of_ne h2]
        rfl

/-! ### Attributes -/

omit hsize in
theorem assignmentFollows_eq (stop : Nat) :
    assignmentFollows bytes stop = .ok (Source.assignmentFollows (charsFrom bytes stop)) := by
  rw [assignmentFollows, Source.assignmentFollows]
  rcases nextMark?_cases bytes stop with ⟨hnext, hskip⟩ | ⟨n, c, hnext, hc, hskip⟩
  · rw [hnext, hskip]
    rfl
  · rw [hnext, hskip, ok_bind]
    simp only [byte_of_byteAt? hc, ok_bind]
    by_cases hassign : c = '='
    · subst hassign
      simp [head?_charsFrom]
    · simp [hassign]

theorem behindBlank_eq {start : Nat} (hstart : start ≤ bytes.size) :
    behindBlank bytes start =
      .ok ((marksBefore bytes code start).head?.any (isBlank ·.char)) := by
  cases start with
  | zero => rfl
  | succ i =>
    obtain ⟨c, b, hc, hb⟩ := exists_mark hsize (i := i) (by omega)
    rw [behindBlank, if_neg (Nat.succ_ne_zero i), less_of_le (Nat.le_add_left 1 i), ok_bind,
      Nat.add_sub_cancel, byte_of_byteAt? hc, ok_bind, marksBefore_succ hc hb, List.head?_cons,
      Option.any_some]

theorem endsOperand_eq {p : Nat} {c : Char} {b : Bool} (hc : byteAt? bytes p = some c)
    (hb : code[p]? = some b) : endsOperand bytes p = .ok (c == '"' || c == '\'' || c == '}' ||
      (isWord c && !declarationKeywords.contains
        (lastWord isWord ((⟨c, b⟩ :: marksBefore bytes code p).map Mark.char)))) := by
  rw [endsOperand, byte_of_byteAt? hc, ok_bind, wordEnding_marksBefore hsize _
    (lt_size_of_byteAt? hc), marksBefore_succ hc hb, ok_bind]
  by_cases hmark : c = '"' ∨ c = '\'' ∨ c = '}'
  · rw [if_pos hmark]
    rcases hmark with rfl | rfl | rfl <;> rfl
  · obtain ⟨h1, h2, h3⟩ : c ≠ '"' ∧ c ≠ '\'' ∧ c ≠ '}' := by simpa using hmark
    rw [if_neg hmark]
    cases isWord c <;> simp [h1, h2, h3]

theorem attributeStarts_eq {start : Nat} (hstart : start ≤ bytes.size) :
    attributeStarts bytes start =
      .ok (Source.attributeStarts (marksBefore bytes code start)) := by
  rw [attributeStarts, behindBlank_eq hsize hstart, ok_bind, Source.attributeStarts.eq_def]
  rcases lastMark?_cases hsize hstart with ⟨hlast, hskip⟩ | ⟨p, c, b, hlast, -, hc, hb, hskip⟩
  · rw [hlast, hskip, Bool.and_false]
    split <;> rfl
  · have hoperand := endsOperand_eq hsize hc hb
    rw [hlast, hskip, ok_bind]
    dsimp only
    rw [hoperand]
    cases marksBefore bytes code start with
    | nil => rfl
    | cons m ms =>
      rw [List.head?_cons, Option.any_some]
      dsimp only
      cases isBlank m.char <;> rfl

theorem operandBefore_eq {lt : Nat} (hlt : lt ≤ bytes.size) : operandBefore bytes lt =
    .ok (match skipBlankMarks (marksBefore bytes code lt) with
      | [] => true
      | m :: ms =>
        if isWord m.char then lastWord isWord ((m :: ms).map Mark.char) == "return"
        else m.char != ')' && m.char != ']') := by
  rw [operandBefore]
  rcases lastMark?_cases hsize hlt with ⟨hlast, hskip⟩ | ⟨p, c, b, hlast, -, hc, hb, hskip⟩
  · rw [hlast, hskip]
    rfl
  · rw [hlast, hskip, ok_bind]
    simp only [byte_of_byteAt? hc, ok_bind,
      wordEnding_marksBefore hsize _ (lt_size_of_byteAt? hc), marksBefore_succ hc hb]
    split <;> rfl

theorem opensTag_eq {lt : Nat} (hlt : lt ≤ bytes.size) : opensTag bytes lt =
    .ok (Source.opensTag (byteAt? bytes (lt + 1)) (marksBefore bytes code lt)) := by
  rw [opensTag, Source.opensTag.eq_def]
  cases byteAt? bytes (lt + 1) with
  | none => rfl
  | some c =>
    change (if (c.isAlpha || c == '_' || c == '$') = true then _ else _) =
      Except.ok ((c.isAlpha || c == '_' || c == '$') && _)
    cases c.isAlpha || c == '_' || c == '$' with
    | false => rfl
    | true => exact operandBefore_eq hsize hlt

theorem insideTag_eq (depth : Nat) {pos : Nat} (hpos : pos ≤ bytes.size) :
    insideTag bytes code depth pos =
      .ok (Source.insideTag depth (byteAt? bytes pos) (marksBefore bytes code pos)) := by
  induction pos generalizing depth with
  | zero => simp [insideTag, Source.insideTag]
  | succ i ih =>
    have ih := fun depth => ih depth (Nat.le_of_succ_le hpos)
    obtain ⟨c, b, hc, hb⟩ := exists_mark hsize (i := i) (by omega)
    rw [hc] at ih
    rw [insideTag, flag_of_getElem? hb, ok_bind, marksBefore_succ hc hb]
    cases b with
    | false =>
      simpa only [Source.insideTag, Bool.false_eq_true, if_false, Bool.not_false, if_true]
        using ih depth
    | true =>
      simp only [Source.insideTag, if_true, byte_of_byteAt? hc, ok_bind, Bool.not_true,
        Bool.false_eq_true, if_false]
      by_cases hclose : c = '}'
      · rw [if_pos hclose, if_pos hclose]
        exact ih _
      · rw [if_neg hclose, if_neg hclose]
        cases depth with
        | zero =>
          simp only [if_true, Nat.lt_irrefl, if_false, opensTag_eq hsize (Nat.le_of_succ_le hpos)]
          split
          · rfl
          · split
            · rfl
            · split
              · rfl
              · exact ih 0
        | succ depth =>
          rw [if_neg (Nat.succ_ne_zero depth), less_of_le (Nat.le_add_left 1 depth), ok_bind,
            Nat.add_sub_cancel, if_pos (Nat.succ_pos depth)]
          split
          · exact ih depth
          · exact ih (depth + 1)

/-! ### Scopes -/

theorem isKey_eq {start : Nat} (stop : Nat) (hstart : start ≤ bytes.size) :
    isKey bytes code start stop = .ok (Source.colonFollows (charsFrom bytes stop) &&
      Source.entryStarts (marksBefore bytes code start)) := by
  rw [isKey, colonFollows_eq, ok_bind, entryStarts_eq hsize hstart]
  cases Source.colonFollows (charsFrom bytes stop) <;> rfl

theorem isAttribute_eq {start : Nat} (stop : Nat) (hstart : start ≤ bytes.size) :
    isAttribute bytes code start stop = .ok (Source.assignmentFollows (charsFrom bytes stop) &&
      Source.attributeStarts (marksBefore bytes code start) &&
        Source.insideTag 0 (byteAt? bytes start) (marksBefore bytes code start)) := by
  rw [isAttribute, assignmentFollows_eq, ok_bind, attributeStarts_eq hsize hstart, ok_bind,
    insideTag_eq hsize 0 hstart]
  cases Source.assignmentFollows (charsFrom bytes stop) <;>
    cases Source.attributeStarts (marksBefore bytes code start) <;> rfl

end

end Renaming.Checked
