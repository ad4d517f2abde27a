/-!
Instants as dates and times of day, in the Gregorian calendar without a beginning and without time
zones.
-/

namespace Renaming

/-- An instant: the seconds since the start of 1970, and nanoseconds. A thousand million of them or
more mark a leap second, which follows the second they are counted from. -/
structure Instant where
  seconds : Int
  nanos : Nat := 0
  deriving DecidableEq, Repr

namespace Calendar

/-- A date. -/
structure Date where
  year : Int
  month : Nat
  day : Nat
  deriving DecidableEq, Repr

/-- The days of 400 years. -/
def daysOfEra : Int := 146097

/-- The date of a day, counted from the start of 1970. Years are taken to start in March, so that
the day that leap years add is their last one. -/
def dateOf (days : Int) : Date :=
  let shifted := days + 719468
  let era := shifted.fdiv daysOfEra
  let dayOfEra := shifted.fmod daysOfEra
  let yearOfEra :=
    (dayOfEra - dayOfEra / 1460 + dayOfEra / 36524 - dayOfEra / 146096) / 365
  let dayOfYear := dayOfEra - (365 * yearOfEra + yearOfEra / 4 - yearOfEra / 100)
  let m := (5 * dayOfYear + 2) / 153
  let day := dayOfYear - (153 * m + 2) / 5 + 1
  let month := if m < 10 then m + 3 else m - 9
  let year := yearOfEra + era * 400 + (if month ≤ 2 then 1 else 0)
  ⟨year, month.toNat, day.toNat⟩

/-- A number with zeros in front of it, at least `width` digits long. -/
def padded (width n : Nat) : List Char :=
  let digits := Nat.toDigits 10 n
  List.replicate (width - digits.length) '0' ++ digits

/-- A year: four digits, and a sign if it has more of them or is negative. -/
def yearText (year : Int) : List Char :=
  if 0 ≤ year ∧ year ≤ 9999 then padded 4 year.toNat
  else (if year < 0 then '-' else '+') :: padded 4 year.natAbs

end Calendar

namespace Instant

open Calendar

/-- The date of an instant. -/
def date (t : Instant) : Date := dateOf (t.seconds.fdiv 86400)

/-- The second of the day of an instant. -/
def secondOfDay (t : Instant) : Nat := (t.seconds.fmod 86400).toNat

/-- Whether the instant lies in a leap second. -/
def isLeap (t : Instant) : Bool := 1000000000 ≤ t.nanos

/-- Hours, minutes and seconds of an instant, each as two digits. -/
def clock (t : Instant) : List Char × List Char × List Char :=
  let s := t.secondOfDay
  (padded 2 (s / 3600), padded 2 (s / 60 % 60), padded 2 (s % 60 + if t.isLeap then 1 else 0))

/-- The date and the time of an instant without separators, as the name of a directory. -/
def compact (t : Instant) : String :=
  let d := t.date
  let (h, m, s) := t.clock
  String.ofList (yearText d.year ++ padded 2 d.month ++ padded 2 d.day ++ 'T' :: (h ++ m ++ s) ++
    ['Z'])

/-- The date and the time of an instant to the second, with separators. -/
def extended (t : Instant) : List Char :=
  let d := t.date
  let (h, m, s) := t.clock
  yearText d.year ++ '-' :: padded 2 d.month ++ '-' :: padded 2 d.day ++ 'T' :: h ++ ':' :: m ++
    ':' :: s

/-- The fraction of the second: nothing, or three, six or nine digits. -/
def fraction (t : Instant) : List Char :=
  let n := t.nanos % 1000000000
  if n = 0 then []
  else if n % 1000000 = 0 then '.' :: padded 3 (n / 1000000)
  else if n % 1000 = 0 then '.' :: padded 6 (n / 1000)
  else '.' :: padded 9 n

/-- An instant to the second. -/
def toSeconds (t : Instant) : String := String.ofList (t.extended ++ ['Z'])

/-- An instant in full. -/
def toFull (t : Instant) : String := String.ofList (t.extended ++ t.fraction ++ "+00:00".toList)

end Instant

end Renaming
