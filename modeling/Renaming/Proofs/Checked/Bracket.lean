import Renaming.Proofs.Checked.Marks

/-!
The innermost bracket that is open at a position. The search for it goes from the position backwards
and counts the closing brackets it has met; a stack that is kept from the start of the source on
holds all brackets that are open. Both treat a closing bracket that matches nothing, or one of
another kind, in the same way: `innermost_eq` holds for any depth, since a closing bracket takes the
top off the stack and so moves each bracket below it up by one.
-/

namespace Renaming.Checked

open Renaming.Source
open Renaming.Source.Segment (byteAt?)

/-! ### The code between two positions -/

/-- The bytes of the code from the position `start` on and in front of `stop`, in their order. -/
def codeBetween (bytes : Array UInt8) (code : Array Bool) (start stop : Nat) : List Char :=
  (((bytes.toList.zip code.toList).take stop).drop start).filterMap fun (b, inCode) =>
    if inCode then some (Char.ofUInt8 b) else none

/-- The characters of marks that are code. -/
def codeOf (ms : List Mark) : List Char :=
  ms.filterMap fun m => if m.inCode then some m.char else none

theorem reverse_codeOf_marksBetween (bytes : Array UInt8) (code : Array Bool) (start stop : Nat) :
    (codeOf (marksBetween bytes code start stop)).reverse = codeBetween bytes code start stop := by
  rw [codeOf, marksBetween, codeBetween, List.filterMap_map, List.filterMap_reverse,
    List.reverse_reverse]
  rfl

/-! ### The stack -/

/-- The brackets that are open behind a character, the innermost first. A closing bracket closes the
innermost one of whatever kind, if there is one. -/
def stacked (opened : List Char) (c : Char) : List Char :=
  if isOpener c then c :: opened else if isCloser c then opened.tail else opened

/-- The brackets that are open behind a text. -/
def stack (text : List Char) : List Char := text.foldl stacked []

theorem not_isOpener_of_isCloser {c : Char} (h : isCloser c = true) : isOpener c = false := by
  simp only [isCloser, Bool.or_eq_true, beq_iff_eq] at h
  rcases h with (rfl | rfl) | rfl <;> rfl

/-- On the way back with `depth` closing brackets to be matched, the bracket that is looked for is
the one that lies `depth` below the top of the stack. -/
theorem innermost_eq (depth : Nat) (ms : List Mark) :
    innermost depth ms = (stack (codeOf ms).reverse)[depth]? := by
  rw [stack, List.foldl_reverse]
  induction ms generalizing depth with
  | nil => simp [innermost, codeOf]
  | cons m ms ih =>
    simp only [innermost]
    cases hcode : m.inCode with
    | false => simpa [codeOf, hcode] using ih depth
    | true =>
      have hcons : codeOf (m :: ms) = m.char :: codeOf ms := by simp [codeOf, hcode]
      rw [hcons, List.foldr_cons]
      simp only [Bool.not_true, Bool.false_eq_true, if_false]
      split
      · next hclose =>
        rw [stacked, not_isOpener_of_isCloser hclose, if_neg Bool.false_ne_true, if_pos hclose,
          List.getElem?_tail]
        exact ih (depth + 1)
      · next hclose =>
        split
        · next hopen =>
          rw [stacked, if_pos hopen]
          cases depth with
          | zero => rfl
          | succ depth => exact ih depth
        · next hopen =>
          rw [stacked, if_neg hopen, if_neg hclose]
          exact ih depth

/-- **The innermost open bracket** at a position is the top of the stack behind the code in front of
it, whatever the bytes are and which of them are code. -/
theorem enclosing_eq_top (bytes : Array UInt8) (code : Array Bool) (pos : Nat)
    (hsize : code.size = bytes.size) (hpos : pos ≤ bytes.size) :
    enclosing bytes code 0 pos = .ok (stack (codeBetween bytes code 0 pos)).head? := by
  rw [enclosing_eq hsize 0 hpos, innermost_eq, marksBefore, reverse_codeOf_marksBetween,
    List.head?_eq_getElem?]

/-- A closing brace closes the square bracket in front of it, and a byte that is no code closes
nothing. -/
theorem enclosing_crossed :
    let bytes : Array UInt8 := #[0x28, 0x5B, 0x7D, 0x29, 0x61]
    let code := #[true, true, true, false, true]
    code.size = bytes.size ∧ 5 ≤ bytes.size ∧ enclosing bytes code 0 5 = .ok (some '(') :=
  ⟨rfl, by decide, (enclosing_eq_top _ _ 5 rfl (by decide)).trans (congrArg Except.ok (by decide))⟩

end Renaming.Checked
