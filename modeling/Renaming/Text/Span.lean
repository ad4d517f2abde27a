/-!
Classes of characters as lists of spans of code points.
-/

namespace Renaming.Text

/-- The code points from the first to the last in equal steps. -/
structure Span where
  first : Nat
  last : Nat
  step : Nat
  deriving DecidableEq, Repr

/-- Whether a code point lies in a span. -/
def Span.contains (s : Span) (n : Nat) : Bool :=
  s.first ≤ n && n ≤ s.last && (n - s.first) % s.step == 0

/-- Whether a character lies in one of the spans, which stand in ascending order. -/
def inSpans (spans : List Span) (c : Char) : Bool :=
  match spans with
  | [] => false
  | s :: rest => s.first ≤ c.toNat && (s.contains c.toNat || inSpans rest c)

end Renaming.Text
