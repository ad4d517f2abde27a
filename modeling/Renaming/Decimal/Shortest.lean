/-!
The shortest decimal text of a binary floating point number: the fewest digits that read back as
the same number, and of those the ones nearest to it.

A finite number is `m * 2 ^ q`. The reals that round to it form an interval around it; the search
goes through the grids of one, two, … seventeen digits and takes the first with a point in the
interval. All arithmetic is exact.
-/

namespace Renaming.Decimal

/-- A positive finite number `m * 2 ^ q`, as the parts of its bits give it. -/
structure Binary where
  m : Nat
  q : Int
  /-- Whether the next smaller number is only half as far away as the next larger one. -/
  tight : Bool
  deriving DecidableEq, Repr

/-- The parts of a positive finite number given by its 64 bits, the sign left aside. -/
def Binary.ofBits (bits : Nat) : Binary :=
  let fraction : Nat := bits % Nat.pow 2 52
  let exponent : Nat := bits / Nat.pow 2 52 % Nat.pow 2 11
  if exponent = 0 then ⟨fraction, -1074, false⟩
  else ⟨Nat.pow 2 52 + fraction, (exponent : Int) - 1075, fraction = 0 && 1 < exponent⟩

/-- A decimal number `digits * 10 ^ exponent`. -/
structure Scaled where
  digits : Nat
  exponent : Int
  deriving DecidableEq, Repr

/-- The fraction `n / d` scaled by a power of two. -/
def scale2 (n d : Nat) (k : Int) : Nat × Nat :=
  if 0 ≤ k then (n * Nat.pow 2 k.toNat, d) else (n, d * Nat.pow 2 (-k).toNat)

/-- The fraction `n / d` scaled by a power of ten. -/
def scale10 (n d : Nat) (k : Int) : Nat × Nat :=
  if 0 ≤ k then (n * Nat.pow 10 k.toNat, d) else (n, d * Nat.pow 10 (-k).toNat)

/-- The number of decimal digits. -/
def width (n : Nat) : Nat := (Nat.toDigits 10 n).length

/-- The distance of two numbers. -/
def distance (a b : Nat) : Nat := (a - b) + (b - a)

/-- The point of the grid of multiples of `10 ^ k` that is nearest to the number among those that
round to it. -/
def onGrid? (b : Binary) (k : Int) : Option Scaled :=
  -- Everything in quarters of `2 ^ q`, over a common denominator.
  let (n, d) := scale2 (4 * b.m) 4 b.q
  let (low, _) := scale2 (4 * b.m - if b.tight then 1 else 2) 4 b.q
  let (high, _) := scale2 (4 * b.m + 2) 4 b.q
  let (whole, part) := scale10 n d (-k)
  let floor := whole / part
  let inside (x : Nat) : Bool :=
    let (p, e) := scale10 x 1 k
    let even := b.m % 2 = 0
    let l := if even then low * e ≤ p * d else low * e < p * d
    let h := if even then p * d ≤ high * e else p * d < high * e
    l && h
  let gap (x : Nat) : Nat :=
    let (p, e) := scale10 x 1 k
    distance (p * d) (n * e)
  let points := [floor, floor + 1].filter fun x => 0 < x && inside x
  match points with
  | [] => none
  | x :: rest =>
    some ⟨rest.foldl (fun y z => if gap z < gap y then z else y) x, k⟩

/-- The power of ten of the first digit of a positive number, from the number of its digits. -/
def leading (b : Binary) : Int :=
  let (n, d) := scale2 b.m 1 b.q
  if d ≤ n then (width (n / d) : Int) - 1
  else
    -- `n / d < 1`: the first digit appears after as many steps as the quotient is wide.
    let steps := width (d / n)
    if Nat.pow 10 steps * n ≥ d then
      if Nat.pow 10 (steps - 1) * n ≥ d then -((steps : Int) - 1) else -(steps : Int)
    else -((steps : Int) + 1)

/-- The shortest decimal that reads back as the number. -/
def shortest (b : Binary) : Scaled :=
  let top := leading b
  match (List.range 17).findSome? fun (i : Nat) => onGrid? b (top - (i : Int)) with
  | some x => x
  | none => ⟨b.m, b.q⟩

/-- A decimal without the zeros at the end of its digits. -/
def Scaled.strip (x : Scaled) : (fuel : Nat) → Scaled
  | 0 => x
  | fuel + 1 =>
    if x.digits ≠ 0 && x.digits % 10 = 0 then
      Scaled.strip ⟨x.digits / 10, x.exponent + 1⟩ fuel
    else x

/-- How a decimal is laid out. -/
structure Layout where
  /-- The greatest number of places before the point in positional notation. -/
  placesBefore : Int
  /-- The greatest number of zeros between the point and the first digit. -/
  zerosAfter : Int
  deriving Repr

/-- The digits of a decimal, positional or with an exponent. -/
def Scaled.layout (l : Layout) (x : Scaled) : String :=
  let digits := Nat.toDigits 10 x.digits
  let point : Int := digits.length + x.exponent
  let zeros (n : Int) : List Char := List.replicate n.toNat '0'
  if 0 ≤ x.exponent && point ≤ l.placesBefore then
    String.ofList (digits ++ zeros x.exponent ++ ['.', '0'])
  else if 0 < point && point ≤ l.placesBefore then
    String.ofList (digits.take point.toNat ++ '.' :: digits.drop point.toNat)
  else if -l.zerosAfter ≤ point && point ≤ 0 then
    String.ofList (['0', '.'] ++ zeros (-point) ++ digits)
  else
    let power := point - 1
    let sign := if power < 0 then ['-'] else ['+']
    let fraction := if digits.length = 1 then [] else '.' :: digits.drop 1
    String.ofList (digits.take 1 ++ fraction ++ ['e'] ++ sign ++ Nat.toDigits 10 power.natAbs)

/-- The text of a floating point number. -/
def ofFloat (l : Layout) (x : Float) : String :=
  let bits := x.toBits.toNat
  let sign := if Nat.pow 2 63 ≤ bits then "-" else ""
  let bits := bits % Nat.pow 2 63
  if bits = 0 then sign ++ "0.0"
  else if 2047 * Nat.pow 2 52 < bits then "NaN"
  else if bits = 2047 * Nat.pow 2 52 then sign ++ "inf"
  else sign ++ ((shortest (Binary.ofBits bits)).strip 20).layout l

end Renaming.Decimal
