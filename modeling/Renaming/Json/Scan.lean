import Renaming.Json.Fault

/-!
The elementary parts of JSON texts: blanks, words, strings and numbers. Each scanner takes the text
from some point on and gives what it read and what is left.
-/

namespace Renaming.Json

/-- What a scanner gives. -/
abbrev Scan (α : Type) := Except Fault (α × List Char)

/-- The blanks of JSON. -/
def isBlank (c : Char) : Bool := c == ' ' || c == '\n' || c == '\t' || c == '\r'

/-- The text from the first character on that is no blank. -/
def skip (text : List Char) : List Char := text.dropWhile isBlank

/-- The text behind a word that must come next. -/
def word : (letters text : List Char) → Except Fault (List Char)
  | [], text => .ok text
  | _ :: _, [] => .error (.here .endInValue [])
  | l :: letters, c :: text =>
    if c = l then word letters text else .error (.next .expectedWord (c :: text))

/-! ### Strings -/

/-- The value of a hexadecimal digit. -/
def hexDigit? (c : Char) : Option Nat :=
  if c.isDigit then some (c.toNat - '0'.toNat)
  else if 'a' ≤ c ∧ c ≤ 'f' then some (c.toNat - 'a'.toNat + 10)
  else if 'A' ≤ c ∧ c ≤ 'F' then some (c.toNat - 'A'.toNat + 10)
  else none

/-- The number that four hexadecimal digits write. -/
def hexNumber? (a b c d : Char) : Option Nat := do
  some (((← hexDigit? a) * 16 + (← hexDigit? b)) * 256 + (← hexDigit? c) * 16 + (← hexDigit? d))

/-- The number that follows a hexadecimal escape. -/
def hexEscape (text : List Char) : Scan Nat :=
  match text with
  | a :: b :: c :: d :: rest =>
    match hexNumber? a b c d with
    | some n => .ok (n, rest)
    | none => .error ⟨.invalidEscape, text, 4⟩
  | _ =>
    if (bytesOf text).length < 4 then .error (.here .endInString [])
    else .error ⟨.invalidEscape, text, 4⟩

/-- The second half of a pair of surrogates, of which the first half was `high`. -/
def pairEscape (high : Nat) (text : List Char) : Scan Char :=
  match text with
  | '\\' :: 'u' :: rest =>
    match hexEscape rest with
    | .error f => .error f
    | .ok (low, rest) =>
      if low < 0xDC00 ∨ 0xDFFF < low then .error (.here .loneSurrogate rest)
      else .ok (Char.ofNat ((high - 0xD800) * 0x400 + (low - 0xDC00) + 0x10000), rest)
  | [] | ['\\'] => .error (.here .endInString [])
  | '\\' :: rest => .error (.next .unfinishedPair rest)
  | rest => .error (.next .unfinishedPair rest)

/-- The character of a hexadecimal escape, which may be a pair of surrogates. -/
def unicodeEscape (text : List Char) : Scan Char :=
  match hexEscape text with
  | .error f => .error f
  | .ok (n, rest) =>
    if 0xDC00 ≤ n ∧ n ≤ 0xDFFF then .error (.here .loneSurrogate rest)
    else if n < 0xD800 ∨ 0xDBFF < n then .ok (Char.ofNat n, rest)
    else pairEscape n rest

/-- The character of an escape whose backslash has been read. -/
def escapeSequence (text : List Char) : Scan Char :=
  match text with
  | [] => .error (.here .endInString [])
  | '"' :: rest => .ok ('"', rest)
  | '\\' :: rest => .ok ('\\', rest)
  | '/' :: rest => .ok ('/', rest)
  | 'b' :: rest => .ok ('\x08', rest)
  | 'f' :: rest => .ok ('\x0c', rest)
  | 'n' :: rest => .ok ('\n', rest)
  | 'r' :: rest => .ok ('\r', rest)
  | 't' :: rest => .ok ('\t', rest)
  | 'u' :: rest => unicodeEscape rest
  | _ => .error (.next .invalidEscape text)

theorem length_of_hexEscape {text rest : List Char} {n : Nat}
    (h : hexEscape text = .ok (n, rest)) : rest.length < text.length := by
  unfold hexEscape at h
  split at h
  · split at h
    · cases h; simp only [List.length_cons]; omega
    · cases h
  · split at h <;> cases h

theorem length_of_pairEscape {high : Nat} {text rest : List Char} {c : Char}
    (h : pairEscape high text = .ok (c, rest)) : rest.length < text.length := by
  unfold pairEscape at h
  split at h
  · split at h
    · cases h
    · next hp =>
      have := length_of_hexEscape hp
      split at h
      · cases h
      · simp only [Except.ok.injEq, Prod.mk.injEq] at h
        simp only [List.length_cons, ← h.2]
        omega
  all_goals cases h

theorem length_of_unicodeEscape {text rest : List Char} {c : Char}
    (h : unicodeEscape text = .ok (c, rest)) : rest.length < text.length := by
  unfold unicodeEscape at h
  split at h
  · cases h
  · next hp =>
    have h1 := length_of_hexEscape hp
    split at h
    · cases h
    · split at h
      · cases h; exact h1
      · have := length_of_pairEscape h; omega

theorem length_of_escapeSequence {text rest : List Char} {c : Char}
    (h : escapeSequence text = .ok (c, rest)) : rest.length < text.length := by
  unfold escapeSequence at h
  split at h
  case h_10 rest' =>
    have := length_of_unicodeEscape h
    simp only [List.length_cons]
    omega
  all_goals cases h
  all_goals simp

/-- The characters of a string whose opening quote has been read, up to its closing quote. -/
def stringBody (text : List Char) : Scan (List Char) :=
  match text with
  | [] => .error (.here .endInString [])
  | '"' :: rest => .ok ([], rest)
  | '\\' :: rest =>
    match h : escapeSequence rest with
    | .error f => .error f
    | .ok (c, rest') =>
      have := length_of_escapeSequence h
      (stringBody rest').map fun (s, left) => (c :: s, left)
  | c :: rest =>
    if c.toNat < 0x20 then .error (.next .control (c :: rest))
    else (stringBody rest).map fun (s, left) => (c :: s, left)
termination_by text.length
decreasing_by
  · simp only [List.length_cons]; omega
  · simp

/-! ### Numbers -/

/-- A number as JSON keeps it. -/
inductive Number
  | int (i : Int)
  | float (x : Float)

/-- The largest whole number of 64 bits. -/
def maxWord : Nat := UInt64.size - 1

/-- Appends digits to a number as long as it stays within 64 bits; gives the number and the digits
that are left over. -/
def absorb (n : Nat) : List Char → Nat × List Char
  | [] => (n, [])
  | d :: ds =>
    let m := n * 10 + (d.toNat - '0'.toNat)
    if maxWord < m then (n, d :: ds) else absorb m ds

/-- The digits at the start of a text, and the text behind them. -/
def digits (text : List Char) : List Char × List Char :=
  (text.takeWhile Char.isDigit, text.dropWhile Char.isDigit)

/-- A power of ten as a floating point number. -/
def tenTo (n : Nat) : Float := Float.ofScientific 1 false n

/-- The floating point number nearest to a whole number and then scaled by a power of ten, in
steps that floating point numbers can express. There is none if it is too large. -/
def scaled? (x : Float) (exponent : Int) : (steps : Nat) → Option Float
  | 0 => some x
  | steps + 1 =>
    if exponent.natAbs ≤ 308 then
      if 0 ≤ exponent then
        let y := x * tenTo exponent.toNat
        if y.isInf then none else some y
      else some (x / tenTo exponent.natAbs)
    else if x == 0 then some x
    else if 0 ≤ exponent then none
    else scaled? (x / tenTo 308) (exponent + 308) steps

/-- The floating point number `± n * 10 ^ exponent`, or a fault in front of `left`. -/
def floatOf (positive : Bool) (n : Nat) (exponent : Int) (left : List Char) : Scan Float :=
  match scaled? n.toUInt64.toFloat exponent (exponent.natAbs / 308 + 2) with
  | some x => .ok (if positive then x else -x, left)
  | none => .error (.here .numberTooLarge left)

/-- The largest exponent that is told apart from larger ones. -/
def maxExponent : Nat := 0x7FFF_FFFF

/-- Appends digits to an exponent as long as it stays within its limit; else none, with the text
behind the digit that was one too many. -/
def absorbExponent (n : Nat) : List Char → Except (List Char) (Nat × List Char)
  | [] => .ok (n, [])
  | d :: ds =>
    if d.isDigit then
      let m := n * 10 + (d.toNat - '0'.toNat)
      if maxExponent < m then .error ds else absorbExponent m ds
    else .ok (n, d :: ds)

/-- A number from its exponent on, whose letter has been read. -/
def exponentPart (positive : Bool) (n : Nat) (scale : Int) (text : List Char) : Scan Float :=
  let (up, text) :=
    match text with
    | '+' :: rest => (true, rest)
    | '-' :: rest => (false, rest)
    | _ => (true, text)
  match text with
  | [] => .error (.here .endInValue [])
  | c :: _ =>
    if !c.isDigit then .error (.next .invalidNumber text)
    else
      match absorbExponent 0 text with
      | .ok (e, rest) => floatOf positive n (if up then scale + e else scale - e) rest
      | .error rest =>
        if n ≠ 0 && up then .error (.here .numberTooLarge rest)
        else .ok (if positive then 0.0 else -0.0, rest.dropWhile Char.isDigit)

/-- A number from the end of its digits on: an exponent may follow. -/
def scalePart (positive : Bool) (n : Nat) (scale : Int) (text : List Char) : Scan Float :=
  match text with
  | 'e' :: rest | 'E' :: rest => exponentPart positive n scale rest
  | _ => floatOf positive n scale text

/-- A number from its point on, which has been read. Digits beyond 64 bits are passed over. -/
def fractionPart (positive : Bool) (n : Nat) (scale : Int) (text : List Char) : Scan Float :=
  let (ds, rest) := digits text
  match ds, rest with
  | [], [] => .error (.here .endInValue [])
  | [], _ => .error (.next .invalidNumber rest)
  | _, _ =>
    let (n, excess) := absorb n ds
    scalePart positive n (scale - (ds.length - excess.length : Nat)) rest

/-- A number from its first digit on. Whole numbers that fit into 64 bits stay whole, except for
zero with a sign. -/
def number (positive : Bool) (text : List Char) : Scan Number :=
  let (ds, rest) := digits text
  match ds, text with
  | [], [] => .error (.here .endInValue [])
  | [], _ => .error (.next .invalidNumber text)
  | '0' :: _ :: _, _ => .error (.next .invalidNumber (text.drop 1))
  | _, _ =>
    let (n, excess) := absorb 0 ds
    let scale : Int := excess.length
    match rest with
    | '.' :: rest => (fractionPart positive n scale rest).map fun (x, r) => (.float x, r)
    | 'e' :: rest | 'E' :: rest =>
      (exponentPart positive n scale rest).map fun (x, r) => (.float x, r)
    | _ =>
      if excess.isEmpty && positive then .ok (.int n, rest)
      else if excess.isEmpty && 0 < n && n ≤ Int64.minValue.toInt.natAbs then .ok (.int (-n), rest)
      else (floatOf positive n scale rest).map fun (x, r) => (.float x, r)

end Renaming.Json
