import Renaming.Checked.Rename
import Renaming.Proofs.Checked.Marks
import Renaming.Proofs.Checked.Segment

/-!
A place of a source by its position. The bytes of a source with their flags are those of its marks
(`bytesOf`), so what stands in front of a position is bytewise the marks in front of it, and each
scope holds the place at a position if it holds the one between the marks: `admits_eq`. The flags
are those that are set segment by segment: `codeFlags_eq`.
-/

namespace Renaming.Checked

open Renaming.Source
open Renaming.Source.Segment (byteAt? encoded segmentsAt)

/-! ### The bytes of marks -/

/-- The bytes of marks, each with the flag of its character. -/
def bytesOf (ms : List Mark) : List (UInt8 × Bool) :=
  ms.flatMap fun m => (utf8 [m.char]).map (·, m.inCode)

/-- The flags of the bytes of marks. -/
def flagsOf (ms : List Mark) : Array Bool := ((bytesOf ms).map Prod.snd).toArray

theorem bytesOf_append (ms us : List Mark) : bytesOf (ms ++ us) = bytesOf ms ++ bytesOf us := by
  simp [bytesOf]

theorem map_fst_bytesOf (ms : List Mark) :
    (bytesOf ms).map Prod.fst = utf8 (ms.map Mark.char) := by
  induction ms with
  | nil => rfl
  | cons m ms ih =>
    rw [← List.singleton_append, bytesOf_append, List.map_append, ih, List.map_append, utf8_append]
    simp [bytesOf, Function.comp_def]

theorem length_bytesOf (ms : List Mark) :
    (bytesOf ms).length = byteLength (ms.map Mark.char) := by
  rw [← length_utf8, ← map_fst_bytesOf, List.length_map]

theorem zip_bytesOf (ms : List Mark) :
    (encoded (ms.map Mark.char)).toList.zip (flagsOf ms).toList = bytesOf ms := by
  rw [encoded, flagsOf, ← map_fst_bytesOf]
  exact (List.zip_of_prod rfl rfl).symm

theorem size_flagsOf (ms : List Mark) :
    (flagsOf ms).size = (encoded (ms.map Mark.char)).size := by
  rw [flagsOf, List.size_toArray, List.length_map, length_bytesOf, Segment.size_encoded]

theorem bytewise_reverse (ms : List Mark) : Bytewise ms.reverse
    ((bytesOf ms).reverse.map fun (b, inCode) => ⟨Char.ofUInt8 b, inCode⟩) := by
  induction ms using List.reverseRecOn with
  | nil => exact .nil
  | append_singleton ms m ih =>
    rw [bytesOf_append, List.reverse_append, List.reverse_append, List.map_append,
      List.reverse_singleton, List.singleton_append]
    have hm : (bytesOf [m]).map (fun (b, inCode) => (⟨Char.ofUInt8 b, inCode⟩ : Mark)) =
        (wide [m.char]).map (⟨·, m.inCode⟩) := by
      simp [bytesOf, wide, Function.comp_def]
    rw [List.map_reverse, hm, ← List.map_reverse]
    by_cases hc : m.char.toNat < 0x80
    · rw [wide_of_lt hc]
      exact .ascii hc ih
    · refine .other (Nat.not_lt.1 hc) (by simpa using wide_ne_nil m.char) ?_ ih
      intro u hu
      obtain ⟨d, hd, rfl⟩ := List.mem_map.1 hu
      exact le_of_mem_wide (Nat.not_lt.1 hc) (List.mem_reverse.1 hd)

/-! ### The scopes of a place -/

section

variable {ms us : List Mark}

/-- The bytes in front of a position are those of the marks in front of it. -/
theorem bytewise_marksBefore (ms us : List Mark) : Bytewise ms.reverse
    (marksBefore (encoded ((ms ++ us).map Mark.char)) (flagsOf (ms ++ us))
      (byteLength (ms.map Mark.char))) := by
  have htake : (bytesOf (ms ++ us)).take (byteLength (ms.map Mark.char)) = bytesOf ms := by
    rw [bytesOf_append, ← length_bytesOf, List.take_left]
  rw [marksBefore, marksBetween, zip_bytesOf, htake, List.drop_zero]
  exact bytewise_reverse ms

theorem charsFrom_eq (a b : List Char) : charsFrom (encoded (a ++ b)) (byteLength a) = wide b := by
  rw [charsFrom, encoded, drop_utf8_append, wide]

/-- What follows a place starts with the same character as its bytes, or both are outside ASCII. -/
theorem sameNext_byteAt? (a : List Char) (c : Char) (r : List Char) :
    Bytewise.SameNext (some c) (byteAt? (encoded (a ++ c :: r)) (byteLength a)) := by
  by_cases hc : c.toNat < 0x80
  · exact .inl (Segment.byteAt?_of_lt rfl hc).symm
  · have hpos : 0 < byteLength [c] := byteLength_pos (by simp)
    obtain ⟨d, hd, hhigh⟩ := Segment.byteAt?_of_le (rfl : a ++ c :: r = a ++ c :: r)
      (Nat.not_lt.1 hc) hpos
    exact .inr ⟨c, d, rfl, hd, Nat.not_lt.1 hc, hhigh⟩

/-- **The scopes of a place** hold it by the positions of its bytes as they hold it by its marks. The
stretch `w` is the word, or the string with its quotes. -/
theorem admits_eq {w after : List Char} {site : Site} (hus : us.map Mark.char = w ++ after)
    (hbefore : site.before = ms.reverse) (hafter : site.after = after)
    (hname : site.inCode = true → site.name.toList = w ∧ w ≠ []) (scope : Scope) :
    admits (encoded ((ms ++ us).map Mark.char)) (flagsOf (ms ++ us)) scope
      (byteLength (ms.map Mark.char)) (byteLength (ms.map Mark.char ++ w)) site.inCode =
        .ok (scope.admits site) := by
  have hsize := size_flagsOf (ms ++ us)
  have hmarks := bytewise_marksBefore ms us
  rw [← hbefore] at hmarks
  have hstart : byteLength (ms.map Mark.char) ≤ (encoded ((ms ++ us).map Mark.char)).size := by
    rw [Segment.size_encoded, List.map_append, byteLength_append]
    omega
  have hchars : charsFrom (encoded ((ms ++ us).map Mark.char))
      (byteLength (ms.map Mark.char ++ w)) = wide site.after := by
    rw [List.map_append, hus, ← List.append_assoc, charsFrom_eq, hafter]
  cases scope with
  | identifier => rfl
  | stringLiteral => rfl
  | objectKey =>
    rw [admits, isKey_eq hsize _ hstart, hchars, colonFollows_wide, ← hmarks.entryStarts]
    rfl
  | jsxAttribute =>
    rw [admits, Scope.admits]
    cases hcode : site.inCode with
    | false => rfl
    | true =>
      obtain ⟨rfl, hne⟩ := hname hcode
      obtain ⟨c, r, hcr⟩ := List.exists_cons_of_ne_nil hne
      have hnext : Bytewise.SameNext site.name.toList.head?
          (byteAt? (encoded ((ms ++ us).map Mark.char)) (byteLength (ms.map Mark.char))) := by
        rw [List.map_append, hus, hcr, List.cons_append, List.head?_cons]
        exact sameNext_byteAt? _ c _
      rw [if_pos rfl, isAttribute_eq hsize _ hstart, hchars, assignmentFollows_wide,
        ← hmarks.attributeStarts, ← hmarks.insideTag hnext]
      rfl

end

/-! ### The flags of the code -/

theorem setBetween_eq (xs ys zs : List Bool) :
    setBetween (xs ++ ys ++ zs).toArray xs.length (xs.length + ys.length) =
      .ok (xs ++ List.replicate ys.length true ++ zs).toArray := by
  have hle : xs.length + ys.length ≤ (xs ++ ys ++ zs).toArray.size := by simp
  rw [setBetween, range_of_le (Nat.le_add_right ..) hle, ok_bind]
  congr 1
  refine Array.toList_inj.1 ?_
  simp
  omega

/-- The flags of pieces. -/
theorem map_snd_bytesOf_marks (p : Piece) :
    (bytesOf p.marks).map Prod.snd =
      List.replicate (byteLength p.text) (decide (p.kind = .code)) := by
  rw [← length_utf8]
  obtain ⟨k, t⟩ := p
  induction t with
  | nil => rfl
  | cons c t ih =>
    rw [← List.singleton_append, utf8_append, List.length_append, List.replicate_add, ← ih]
    simp [bytesOf, Piece.marks, List.map_const', Function.comp_def]

theorem foldlM_setBetween (xs : List Bool) (ps : List Piece) :
    ((segmentsAt xs.length ps).filter (·.kind = .code)).foldlM
        (fun flags s => setBetween flags s.start s.stop)
        (xs ++ List.replicate (byteLength (textOf ps)) false).toArray =
      .ok (xs ++ (bytesOf (marksOf ps)).map Prod.snd).toArray := by
  induction ps generalizing xs with
  | nil => simp [segmentsAt, located, bytesOf, pure, Except.pure]
  | cons p ps ih =>
    have ih := ih (xs ++ (bytesOf p.marks).map Prod.snd)
    have hlen : (xs ++ (bytesOf p.marks).map Prod.snd).length =
        xs.length + byteLength p.text := by
      rw [map_snd_bytesOf_marks, List.length_append, List.length_replicate]
    have hsegments : segmentsAt xs.length (p :: ps) =
        ⟨p.kind, xs.length, xs.length + byteLength p.text⟩ ::
          segmentsAt (xs.length + byteLength p.text) ps := rfl
    rw [hlen] at ih
    rw [hsegments, textOf_cons, byteLength_append, List.replicate_add, ← List.append_assoc,
      marksOf_cons, bytesOf_append, List.map_append, ← List.append_assoc, ← ih]
    by_cases hk : p.kind = .code
    · have hset := setBetween_eq xs (List.replicate (byteLength p.text) false)
        (List.replicate (byteLength (textOf ps)) false)
      rw [List.length_replicate] at hset
      rw [List.filter_cons_of_pos (by simpa using hk), List.foldlM_cons, hset, ok_bind,
        map_snd_bytesOf_marks, hk]
      rfl
    · rw [List.filter_cons_of_neg (by simpa using hk), map_snd_bytesOf_marks, decide_eq_false hk]

/-- **The flags of the code** are set without a fault. -/
theorem codeFlags_eq (source : String) :
    codeFlags (encoded source.toList).size (segmentsOf source) =
      .ok (flagsOf (marksOf (pieces source.toList))) := by
  have htext : textOf (pieces source.toList) = source.toList := flatMap_text_pieces _
  have h := foldlM_setBetween [] (pieces source.toList)
  rw [htext] at h
  rw [codeFlags, segmentsOf_eq, Segment.size_encoded, flagsOf]
  simpa using h

end Renaming.Checked
