import Renaming.Source.Segment

/-!
Access by position with every bound checked. Reading a byte, cutting a stretch out of bytes or out
of a text, and taking one number from another are only done where they are possible; where they are
not, there is a fault and no result.
-/

namespace Renaming.Checked

open Renaming.Source
open Renaming.Source.Segment (byteAt? lt_size_of_byteAt?)

/-- What is wrong with an access. -/
inductive Fault
  /-- Nothing stands at the position. -/
  | index (i : Nat)
  /-- The positions are out of order, or beyond the end. -/
  | range (start stop : Nat)
  /-- The positions are out of order, or one of them is not between two characters of the text. -/
  | text (start stop : Nat)
  /-- More is taken away than there is. -/
  | less (n m : Nat)
  deriving DecidableEq, Repr

/-! ### Accesses -/

/-- What stands at a position, if anything does. -/
def item {α : Type} (x : Option α) (i : Nat) : Except Fault α :=
  match x with
  | some x => .ok x
  | none => .error (.index i)

/-- The byte at a position, as the character with its code. -/
def byte (bytes : Array UInt8) (i : Nat) : Except Fault Char := item (byteAt? bytes i) i

/-- The flag at a position. -/
def flag (flags : Array Bool) (i : Nat) : Except Fault Bool := item flags[i]? i

/-- The items between two positions. -/
def range {α : Type} (xs : Array α) (start stop : Nat) : Except Fault (Array α) :=
  if start ≤ stop ∧ stop ≤ xs.size then .ok (xs.extract start stop) else .error (.range start stop)

/-- The text between two positions. -/
def text (source : String) (start stop : Nat) : Except Fault String :=
  if h : (start ≤ stop ∧ (String.Pos.Raw.mk start).IsValid source) ∧
      (String.Pos.Raw.mk stop).IsValid source then
    .ok (source.extract ⟨⟨start⟩, h.1.2⟩ ⟨⟨stop⟩, h.2⟩)
  else .error (.text start stop)

/-- A number less another one. -/
def less (n m : Nat) : Except Fault Nat := if m ≤ n then .ok (n - m) else .error (.less n m)

/-! ### What is accessed -/

section

variable {α β : Type}

@[simp] theorem ok_bind (x : α) (f : α → Except Fault β) : (Except.ok x >>= f) = f x := rfl

@[simp] theorem error_bind (e : Fault) (f : α → Except Fault β) :
    (Except.error e >>= f) = .error e := rfl

@[simp] theorem item_some (x : α) (i : Nat) : item (some x) i = .ok x := rfl

theorem item_eq_ok_iff {x : Option α} {i : Nat} {y : α} : item x i = .ok y ↔ x = some y := by
  cases x <;> simp [item]

theorem byte_eq_ok_iff {bytes : Array UInt8} {i : Nat} {c : Char} :
    byte bytes i = .ok c ↔ byteAt? bytes i = some c := item_eq_ok_iff

theorem byte_of_byteAt? {bytes : Array UInt8} {i : Nat} {c : Char} (h : byteAt? bytes i = some c) :
    byte bytes i = .ok c := byte_eq_ok_iff.2 h

theorem exists_byteAt? {bytes : Array UInt8} {i : Nat} (h : i < bytes.size) :
    ∃ c, byteAt? bytes i = some c :=
  ⟨Char.ofUInt8 bytes[i], by rw [byteAt?, Array.getElem?_eq_getElem h, Option.map_some]⟩

theorem byteAt?_eq_none_iff {bytes : Array UInt8} {i : Nat} :
    byteAt? bytes i = none ↔ bytes.size ≤ i := by
  rw [byteAt?, Option.map_eq_none_iff, Array.getElem?_eq_none_iff]

theorem flag_of_getElem? {flags : Array Bool} {i : Nat} {b : Bool} (h : flags[i]? = some b) :
    flag flags i = .ok b := item_eq_ok_iff.2 h

theorem range_of_le {xs : Array α} {start stop : Nat} (h : start ≤ stop) (h' : stop ≤ xs.size) :
    range xs start stop = .ok (xs.extract start stop) := if_pos ⟨h, h'⟩

theorem less_of_le {n m : Nat} (h : m ≤ n) : less n m = .ok (n - m) := if_pos h

end

end Renaming.Checked
