import Renaming.Checked.Segment
import Renaming.Proofs.Source.Wide
import Renaming.Proofs.Source.Segment

/-!
No access of the segmenter fails. The bytes are looked at where there are some, the last byte that
counts is one that has been read (`find_eq`), and the text behind the opening mark of a block comment
starts between two characters since its star is one. So the segments that are found by checked
accesses are those of the source: `segments_eq`. The contents of its literals are found as well, by
`content?_eq`, where the quotes on both sides are cut off and a backslash counts as a byte.
-/

namespace Renaming.Checked

open Renaming.Source
open Renaming.Source.Segment (byteAt? lt_size_of_byteAt? encoded Memory)
open Renaming.Text (isBlank)

/-! ### Texts between positions -/

section

variable {source : String} {a t b : List Char}

theorem isValid_of_split (h : source.toList = a ++ b) :
    (String.Pos.Raw.mk (byteLength a)).IsValid source := by
  refine String.Pos.Raw.isValid_iff_exists_append.2 ⟨String.ofList a, String.ofList b, ?_, rfl⟩
  rw [← String.toList_inj, String.toList_append, String.toList_ofList, String.toList_ofList, h]

/-- A stretch of a source that starts and ends between characters can be cut out. -/
theorem text_eq (h : source.toList = a ++ t ++ b) :
    text source (byteLength a) (byteLength (a ++ t)) = .ok (String.ofList t) := by
  have hle : byteLength a ≤ byteLength (a ++ t) := by rw [byteLength_append]; omega
  have hstart := isValid_of_split (h.trans (List.append_assoc ..))
  rw [text, dif_pos ⟨⟨hle, hstart⟩, isValid_of_split h⟩]
  congr 1
  refine String.toByteArray_inj.1 (ByteArray.ext (Array.toList_inj.1 ?_))
  rw [String.toByteArray_extract, ByteArray.data_extract, ← String.toUTF8_eq_toByteArray,
    ← String.toUTF8_eq_toByteArray, toUTF8_eq, toUTF8_eq, Array.toList_extract, encoded, encoded,
    List.extract_eq_take_drop, h, List.append_assoc, drop_utf8_append]
  change (utf8 (t ++ b)).take (byteLength (a ++ t) - byteLength a) = utf8 (String.ofList t).toList
  rw [byteLength_append, Nat.add_sub_cancel_left, take_utf8_append, String.toList_ofList]

theorem exists_split_of_byteAt? {cs : List Char} {i : Nat} {d : Char} (hd : d.toNat < 0x80)
    (h : byteAt? (encoded cs) i = some d) : ∃ a r, cs = a ++ d :: r ∧ byteLength a = i := by
  induction cs generalizing i with
  | nil =>
    rw [Segment.byteAt?_end (by simp)] at h
    cases h
  | cons c cs ih =>
    by_cases hi : i < byteLength [c]
    · have hat : c.toNat < 0x80 → i = 0 ∧ c = d := by
        intro hc
        rw [Segment.byteLength_of_lt hc] at hi
        obtain rfl : i = 0 := by omega
        have := Segment.byteAt?_of_lt (List.nil_append (c :: cs)).symm hc
        exact ⟨rfl, Option.some.inj (this.symm.trans h)⟩
      by_cases hc : c.toNat < 0x80
      · obtain ⟨rfl, rfl⟩ := hat hc
        exact ⟨[], cs, rfl, byteLength_nil⟩
      · obtain ⟨e, he, hhigh⟩ :=
          Segment.byteAt?_of_le (List.nil_append (c :: cs)).symm (Nat.not_lt.1 hc) hi
        rw [byteLength_nil, Nat.zero_add] at he
        obtain rfl := Option.some.inj (he.symm.trans h)
        omega
    · obtain ⟨k, rfl⟩ := Nat.exists_eq_add_of_le (Nat.not_lt.1 hi)
      rw [Segment.byteAt?_add (List.singleton_append (x := c) (l := cs)).symm,
        ← Segment.byteAt?_eq] at h
      obtain ⟨a, r, rfl, rfl⟩ := ih h
      exact ⟨c :: a, r, rfl, by rw [← List.singleton_append, byteLength_append]⟩

end

/-! ### What is found at a position -/

section

variable {bytes : Array UInt8}

theorem flagsEnd_le {i : Nat} (h : i ≤ bytes.size) : Segment.flagsEnd bytes i ≤ bytes.size := by
  fun_induction Segment.flagsEnd bytes i with
  | case1 => exact h
  | case2 i c hc _ ih => exact ih (lt_size_of_byteAt? hc)
  | case3 => exact h

theorem regexEnd?_le {k : Bool} {i stop : Nat} (h : Segment.regexEnd? bytes k i = some stop) :
    stop ≤ bytes.size := by
  fun_induction Segment.regexEnd? bytes k i with
  | case1 => cases h
  | case3 => cases h
  | case6 k i c hc =>
    obtain rfl := Option.some.inj h
    exact flagsEnd_le (lt_size_of_byteAt? hc)
  | case2 _ _ _ ih | case4 _ _ _ _ _ ih | case5 _ _ _ _ _ _ ih | case7 _ _ _ _ _ _ _ _ _ ih =>
    exact ih h

theorem find_last {m : Memory} {i : Nat} {c : Char} (hc : byteAt? bytes i = some c)
    (hlast : ∀ p ∈ m.last, p < bytes.size) :
    ∀ p ∈ (Segment.find bytes m i c).2.last, p < bytes.size := by
  have hi : ∀ p ∈ some i, p < bytes.size := by
    rintro p hp
    obtain rfl := Option.some.inj hp
    exact lt_size_of_byteAt? hc
  have htemplate : ∀ opened, ∀ p ∈ (Segment.templatePiece bytes opened i).2.last,
      p < bytes.size := by
    intro opened
    unfold Segment.templatePiece
    dsimp only
    split
    · exact fun p hp => absurd hp (Option.not_mem_none p)
    · exact hi
  unfold Segment.find
  split
  · exact hlast
  · exact hlast
  · split
    · split
      · next stop hstop =>
        rintro p hp
        obtain rfl := Option.some.inj hp
        have := Segment.le_regexEnd? hstop
        have := regexEnd?_le hstop
        omega
      · exact hi
    · exact hi
  · exact hi
  · exact hi
  · exact htemplate _
  · exact hi
  · split
    · exact htemplate _
    · exact hi
  · dsimp only
    split
    · exact hlast
    · exact hi

end

section

variable {source : String}

/-- **What is found at a position** is found without a fault. -/
theorem find_eq {m : Memory} {i : Nat} {c : Char} (hc : byteAt? (encoded source.toList) i = some c)
    (hlast : ∀ p ∈ m.last, p < (encoded source.toList).size) :
    find source (encoded source.toList) m i c = .ok (Segment.find (encoded source.toList) m i c) := by
  have hi : i ≤ (encoded source.toList).size := Nat.le_of_lt (lt_size_of_byteAt? hc)
  suffices hfind : ∃ r, find source (encoded source.toList) m i c = .ok r by
    obtain ⟨r, hr⟩ := hfind
    rw [hr, find_of_ok hc hr]
  unfold find
  split
  · exact ⟨_, by rw [range_of_le hi (Nat.le_refl _), ok_bind, lineEnd_eq, ok_bind]⟩
  · next hnext =>
    -- the star is a character, so a text starts behind it
    obtain ⟨a, r, hsplit, hlen⟩ := exists_split_of_byteAt? (by decide) hnext
    have hsource : source.toList = a ++ ['*'] ++ r ++ [] := by simp [hsplit]
    have htext := text_eq hsource
    rw [← Segment.byteLength_add_one (by decide), hlen, List.append_assoc, List.singleton_append,
      ← hsplit, ← Segment.size_encoded] at htext
    exact ⟨_, by rw [htext, ok_bind, blockEnd_eq, ok_bind]⟩
  · rw [allowsRegex_eq hi hlast, ok_bind]
    split
    · rw [regexEnd?_eq, ok_bind]
      split
      · next stop hstop =>
        have := Segment.le_regexEnd? hstop
        exact ⟨_, by rw [less_of_le (by omega), ok_bind]⟩
      · exact ⟨_, rfl⟩
    · exact ⟨_, rfl⟩
  · exact ⟨_, by rw [stringPiece, quotedEnd_eq, ok_bind]⟩
  · exact ⟨_, by rw [stringPiece, quotedEnd_eq, ok_bind]⟩
  · exact ⟨_, by rw [templatePiece, templateEnd_eq, ok_bind]⟩
  · exact ⟨_, rfl⟩
  · split
    · exact ⟨_, by rw [templatePiece, templateEnd_eq, ok_bind]⟩
    · exact ⟨_, rfl⟩
  · exact ⟨_, rfl⟩

theorem segmentsFrom_eq {m : Memory} (k i : Nat)
    (hlast : ∀ p ∈ m.last, p < (encoded source.toList).size) :
    segmentsFrom source (encoded source.toList) m k i =
      .ok (Segment.segmentsFrom (encoded source.toList) m k i) := by
  fun_induction Segment.segmentsFrom (encoded source.toList) m k i with
  | case1 m k i h => rw [segmentsFrom_of_none h]
  | case2 m k i c h m' hf ih =>
    have hfind := find_eq h hlast
    have hlast' := find_last h hlast
    rw [hf] at hfind hlast'
    rw [segmentsFrom_of_code h hfind, ih hlast']
  | case3 m k i c h kind stop m' hf ih =>
    have hfind := find_eq h hlast
    have hlast' := find_last h hlast
    rw [hf] at hfind hlast'
    rw [segmentsFrom_of_piece h hfind, ih hlast', ok_bind]

/-- **The segments of a source** are found without a fault. -/
theorem segments_eq (source : String) : segments source = .ok (segmentsOf source) := by
  rw [segments, segmentsOf, toUTF8_eq]
  exact segmentsFrom_eq 0 0 fun p hp => absurd hp (Option.not_mem_none p)

end

/-! ### The contents of literals -/

section

variable {t : List Char}

theorem slashesEnding_encoded (t : List Char) :
    slashesEnding (encoded t) = (t.reverse.takeWhile (· == '\\')).length := by
  have htake := takeWhile_wide (p := (· == '\\'))
    (fun x hx => beq_false_of_ne (Segment.ne_of_le hx (by decide))) t
  exact congrArg List.length htake

theorem escapesQuote_eq {q : Char} (hq : q.toNat < 0x80) (m : List Char) :
    escapesQuote (encoded (q :: (m ++ [q]))) =
      .ok ((m.reverse.takeWhile (· == '\\')).length % 2 == 1) := by
  have hsize : (encoded (q :: (m ++ [q]))).size = byteLength m + 2 := by
    rw [Segment.size_encoded, ← List.singleton_append, byteLength_append, byteLength_append,
      Segment.byteLength_of_lt hq]
    omega
  have hinside : (encoded (q :: (m ++ [q]))).extract 1 (byteLength m + 1) = encoded m := by
    refine Array.toList_inj.1 ?_
    have hdrop := drop_utf8_append [q] (m ++ [q])
    rw [Segment.byteLength_of_lt hq] at hdrop
    rw [Array.toList_extract, encoded, List.extract_eq_take_drop, ← List.singleton_append, hdrop,
      Nat.add_sub_cancel, take_utf8_append, encoded]
  rw [escapesQuote, hsize]
  rcases List.eq_nil_or_concat m with rfl | ⟨m, z, rfl⟩
  · rfl
  · rw [List.concat_eq_append] at hsize hinside ⊢
    have hpos : 0 < byteLength (m ++ [z]) := byteLength_pos (by simp)
    have hsplit : q :: (m ++ [z] ++ [q]) = (q :: m ++ [z]) ++ [q] := by simp
    obtain ⟨d, hd, hclass⟩ := Segment.byteAt?_last hsplit
    have hlen : byteLength (q :: m ++ [z]) - 1 = byteLength (m ++ [z]) + 2 - 2 := by
      rw [List.cons_append, ← List.singleton_append, byteLength_append, Segment.byteLength_of_lt hq]
      omega
    rw [hlen] at hd
    rw [if_pos (by omega), less_of_le (by omega), ok_bind, byte_of_byteAt? hd, ok_bind,
      less_of_le (by omega), ok_bind, show byteLength (m ++ [z]) + 2 - 1 = byteLength (m ++ [z]) + 1
      by omega, range_of_le (by omega) (by omega), ok_bind, hinside, slashesEnding_encoded]
    split
    · rfl
    · next hslash =>
      have hz : z ≠ '\\' := by
        rintro rfl
        have := hclass (· == '\\') fun x hx => beq_false_of_ne (Segment.ne_of_le hx (by decide))
        simp [hslash] at this
      rw [List.reverse_append, List.reverse_singleton, List.singleton_append,
        List.takeWhile_cons_of_neg (by simpa using hz)]
      rfl

theorem isQuote_of_le {c : Char} (h : 0x80 ≤ c.toNat) : isQuote c = false := by
  simp only [isQuote, Bool.or_eq_false_iff]
  exact ⟨⟨beq_false_of_ne (Segment.ne_of_le h (by decide)),
    beq_false_of_ne (Segment.ne_of_le h (by decide))⟩,
    beq_false_of_ne (Segment.ne_of_le h (by decide))⟩

/-- The first byte of a character is in the classes of ASCII characters that the character is in. -/
theorem byteAt?_first {cs a r : List Char} {q : Char} (h : cs = a ++ q :: r) :
    ∃ d, byteAt? (encoded cs) (byteLength a) = some d ∧
      ∀ p : Char → Bool, (∀ x : Char, 0x80 ≤ x.toNat → p x = false) → p d = p q := by
  by_cases hq : q.toNat < 0x80
  · exact ⟨q, Segment.byteAt?_of_lt h hq, fun _ _ => rfl⟩
  · have hpos : 0 < byteLength [q] := byteLength_pos (by simp)
    obtain ⟨d, hd, hhigh⟩ := Segment.byteAt?_of_le h (Nat.not_lt.1 hq) hpos
    exact ⟨d, hd, fun p hp => by rw [hp d hhigh, hp q (Nat.not_lt.1 hq)]⟩

theorem inner?_of_not_isQuote {q : Char} (hq : isQuote q = false) (r : List Char) :
    inner? (String.ofList (q :: r)) = .ok none := by
  rw [inner?, toUTF8_eq, String.toList_ofList]
  split
  · rfl
  · next hsize =>
    obtain ⟨d, hd, hclass⟩ := byteAt?_first (List.nil_append (q :: r)).symm
    rw [byteLength_nil] at hd
    obtain ⟨e, he⟩ : ∃ e, byteAt? (encoded (q :: r)) ((encoded (q :: r)).size - 1) = some e :=
      exists_byteAt? (by omega)
    rw [byte_of_byteAt? hd, ok_bind, less_of_le (by omega), ok_bind, byte_of_byteAt? he, ok_bind,
      hclass isQuote fun x hx => isQuote_of_le hx, hq]
    rfl

theorem lt_of_isQuote {q : Char} (hq : isQuote q = true) : q.toNat < 0x80 := by
  refine Nat.not_le.1 fun hle => ?_
  rw [isQuote_of_le hle] at hq
  cases hq

theorem exists_closing {q z : Char} (hq : q.toNat < 0x80) (m : List Char) :
    ∃ d, byteAt? (encoded (q :: (m ++ [z]))) (byteLength (q :: (m ++ [z])) - 1) = some d ∧
      (q != d) = (q != z) := by
  have hsplit : q :: (m ++ [z]) = (q :: m ++ [z]) ++ [] := by simp
  obtain ⟨d, hd, hclass⟩ := Segment.byteAt?_last hsplit
  have := hclass (q == ·) fun x hx => beq_false_of_ne (Segment.ne_of_le hx hq).symm
  exact ⟨d, hd, congrArg (!·) this⟩

theorem inner?_of_isQuote {q z : Char} (hq : isQuote q = true) (m : List Char) :
    inner? (String.ofList (q :: (m ++ [z]))) =
      .ok ((Source.inner? (q :: (m ++ [z]))).map String.ofList) := by
  have hlt := lt_of_isQuote hq
  have hinner : Source.inner? (q :: (m ++ [z])) = if q = z ∧
      (m.reverse.takeWhile (· == '\\')).length % 2 = 0 then some m else none := by
    simp [Source.inner?, hq]
  have hge : 2 ≤ byteLength (q :: (m ++ [z])) := by
    have := byteLength_pos (List.cons_ne_nil z [])
    rw [← List.singleton_append, byteLength_append, byteLength_append, Segment.byteLength_of_lt hlt]
    omega
  have hopening : byteAt? (encoded (q :: (m ++ [z]))) 0 = some q :=
    Segment.byteAt?_of_lt (List.nil_append (q :: (m ++ [z]))).symm hlt
  obtain ⟨d, hd, hclosing⟩ := exists_closing (z := z) hlt m
  rw [hinner, inner?, toUTF8_eq, String.toList_ofList, Segment.size_encoded, if_neg (by omega),
    byte_of_byteAt? hopening, ok_bind, less_of_le (by omega), ok_bind, byte_of_byteAt? hd, ok_bind,
    hq, hclosing, Bool.not_true, Bool.false_or]
  by_cases hz : q = z
  · subst hz
    have hlen : byteLength (q :: (m ++ [q])) - 1 = byteLength ([q] ++ m) := by
      rw [← List.cons_append, byteLength_append, Segment.byteLength_of_lt hlt]
      rfl
    have hsource : (String.ofList (q :: (m ++ [q]))).toList = [q] ++ m ++ [q] := by simp
    have htext := text_eq hsource
    rw [Segment.byteLength_of_lt hlt] at htext
    rw [escapesQuote_eq hlt, ok_bind, hlen, htext, bne_self_eq_false]
    rcases Nat.mod_two_eq_zero_or_one (m.reverse.takeWhile (· == '\\')).length with h | h <;>
      simp [h]
  · simp [hz]

theorem inner?_eq (t : List Char) :
    inner? (String.ofList t) = .ok ((Source.inner? t).map String.ofList) := by
  rcases t with _ | ⟨q, r⟩
  · rfl
  · cases hq : isQuote q with
    | false =>
      have hnone : Source.inner? (q :: r) = none := by
        refine Option.eq_none_iff_forall_ne_some.2 fun m hm => ?_
        obtain ⟨q', hq', ht⟩ := eq_cons_append_of_inner? hm
        rw [(List.cons.inj ht).1, hq'] at hq
        cases hq
      rw [inner?_of_not_isQuote hq, hnone]
      rfl
    | true =>
      rcases List.eq_nil_or_concat r with rfl | ⟨m, z, rfl⟩
      · rw [inner?, toUTF8_eq, String.toList_ofList, Segment.size_encoded,
          Segment.byteLength_of_lt (lt_of_isQuote hq)]
        rfl
      · rw [List.concat_eq_append]
        exact inner?_of_isQuote hq m

/-- **The content of a piece** that is a literal is found without a fault. -/
theorem content?_eq {source : String} {a b : List Char} {p : Piece}
    (h : source.toList = a ++ p.text ++ b) :
    content? source ⟨p.kind, byteLength a, byteLength (a ++ p.text)⟩ =
      .ok (p.content?.map String.ofList) := by
  rw [content?, Piece.content?]
  split
  · rw [text_eq h, ok_bind, inner?_eq]
  · rfl

end

end Renaming.Checked
