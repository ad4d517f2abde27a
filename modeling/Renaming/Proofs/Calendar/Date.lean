import Mathlib.Order.Monotone.Basic
import Mathlib.Tactic.IntervalCases
import Renaming.Calendar

/-!
The dates of the days. A date is one of the Gregorian calendar (`Date.Valid`) if its month has that
day, with the rule for leap years, and `Date.next` is the date after it. Every day has a date, and
the next day has the next date (`dateOf_succ`). So later days have greater dates
(`number_dateOf_lt`).

The date of a day is computed from years that start in March. What is shown of the computation is
that it undoes `Date.days`, which counts the days up to a date (`dateOf_days`). The rest follows
from how the days up to the next date are counted (`Date.Valid.days_next`).
-/

namespace Renaming.Calendar

variable {d : Date} {n k y m : Int}

/-! ### Dates -/

/-- Whether a year has a day more than the others. -/
def isLeapYear (year : Int) : Bool :=
  year % 4 = 0 && (year % 100 ≠ 0 || year % 400 = 0)

/-- The days of a month, of which January is the first one. -/
def daysOfMonth (year : Int) (month : Nat) : Nat :=
  if month = 2 then if isLeapYear year then 29 else 28
  else if month ∈ [4, 6, 9, 11] then 30
  else 31

/-- The date is one of the calendar. -/
structure Date.Valid (d : Date) : Prop where
  month : 1 ≤ d.month ∧ d.month ≤ 12
  day : 1 ≤ d.day ∧ d.day ≤ daysOfMonth d.year d.month

/-- The date after a date. -/
def Date.next (d : Date) : Date :=
  if d.day < daysOfMonth d.year d.month then ⟨d.year, d.month, d.day + 1⟩
  else if d.month < 12 then ⟨d.year, d.month + 1, 1⟩
  else ⟨d.year + 1, 1, 1⟩

/-- A date as one number, with two digits each for the month and the day. -/
def Date.number (d : Date) : Int := (d.year * 100 + d.month) * 100 + d.day

theorem daysOfMonth_bounds (year : Int) (month : Nat) :
    28 ≤ daysOfMonth year month ∧ daysOfMonth year month ≤ 31 := by
  unfold daysOfMonth
  split
  · split <;> decide
  · split <;> decide

theorem daysOfMonth_pos (year : Int) (month : Nat) : 1 ≤ daysOfMonth year month :=
  Nat.le_trans (by decide) (daysOfMonth_bounds year month).1

theorem daysOfMonth_february_le (year : Int) : daysOfMonth year 2 ≤ 29 := by
  rw [daysOfMonth, if_pos rfl]
  split <;> decide

theorem Date.Valid.day_le (h : d.Valid) : d.day ≤ 31 := h.day.2.trans (daysOfMonth_bounds ..).2

theorem Date.Valid.next (h : d.Valid) : d.next.Valid := by
  obtain ⟨⟨hlow, hhigh⟩, hday, hlast⟩ := h
  unfold Date.next
  split
  next hin => exact ⟨⟨hlow, hhigh⟩, Nat.le_add_left .., hin⟩
  next =>
    split
    next hmonth => exact ⟨⟨Nat.le_add_left .., hmonth⟩, Nat.le_refl 1, daysOfMonth_pos ..⟩
    next => exact ⟨⟨Nat.le_refl 1, Nat.le_add_left 1 11⟩, Nat.le_refl 1, daysOfMonth_pos ..⟩

theorem Date.Valid.year_le {e : Date} (he : e.Valid) (h : d.number < e.number) :
    d.year ≤ e.year := by
  have hmonth := he.month
  have hday := he.day_le
  unfold Date.number at h
  omega

/-- The next date is greater. -/
theorem Date.Valid.number_lt_next (h : d.Valid) : d.number < d.next.number := by
  have hmonth := h.month
  have hday := h.day_le
  unfold Date.next Date.number
  split
  next => dsimp only; omega
  next =>
    split
    next => dsimp only; omega
    next => dsimp only; omega

/-! ### Counting days -/

/-- The days from the first of March of the year 0 to the first of March of a year. -/
def yearStart (y : Int) : Int := 365 * y + y / 4 - y / 100 + y / 400

/-- The days from the first of March to the first of a month, counted from March as month 0. -/
def monthStart (m : Int) : Int := (153 * m + 2) / 5

/-- The days from the first of March of the year 0 to the first of a month. -/
def firstOf (year : Int) (month : Nat) : Int :=
  if month ≤ 2 then yearStart (year - 1) + monthStart (month + 9)
  else yearStart year + monthStart (month - 3)

/-- The days from the start of 1970 to a date. -/
def Date.days (d : Date) : Int := firstOf d.year d.month + (d.day - 1) - 719468

/-- The leap day stands in front of the first of March. -/
theorem yearStart_eq (y : Int) :
    yearStart y = yearStart (y - 1) + monthStart 11 + daysOfMonth y 2 := by
  rw [daysOfMonth, if_pos rfl]
  unfold yearStart monthStart isLeapYear
  simp only [Bool.and_eq_true, Bool.or_eq_true, decide_eq_true_eq]
  split <;> omega

theorem monthStart_succ (year : Int) {month : Nat} (h : 3 ≤ month ∧ month ≤ 12) :
    monthStart (month - 3 + 1) = monthStart (month - 3) + daysOfMonth year month := by
  obtain ⟨hlow, hhigh⟩ := h
  interval_cases month <;> rfl

theorem firstOf_succ {year : Int} {month : Nat} (h : 1 ≤ month ∧ month < 12) :
    firstOf year (month + 1) = firstOf year month + daysOfMonth year month := by
  obtain rfl | rfl | hlate : month = 1 ∨ month = 2 ∨ 3 ≤ month := by omega
  · have hjanuary : monthStart 11 = monthStart 10 + 31 := rfl
    simpa [firstOf, daysOfMonth, Int.add_assoc] using hjanuary
  · have hmarch := yearStart_eq year
    simpa [firstOf, monthStart] using hmarch
  · have hnext : ((month + 1 : Nat) : Int) - 3 = month - 3 + 1 := by omega
    rw [firstOf, firstOf, if_neg (by omega), if_neg (by omega), hnext,
      monthStart_succ year ⟨hlate, Nat.le_of_lt h.2⟩, Int.add_assoc]

theorem firstOf_january (year : Int) :
    firstOf (year + 1) 1 = firstOf year 12 + daysOfMonth year 12 := by
  simp [firstOf, monthStart, daysOfMonth]
  omega

/-- Up to the next date there is one day more. -/
theorem Date.Valid.days_next (h : d.Valid) : d.next.days = d.days + 1 := by
  obtain ⟨hmonth, hday, hlast⟩ := h
  unfold Date.next Date.days
  split
  next => dsimp only; omega
  next hend =>
    have heq : d.day = daysOfMonth d.year d.month := by omega
    split
    next hin =>
      dsimp only
      rw [firstOf_succ ⟨hmonth.1, hin⟩, heq]
      omega
    next hout =>
      have hdecember : d.month = 12 := by omega
      dsimp only
      rw [firstOf_january, heq, hdecember]
      omega

/-! ### Years without leap days -/

/-- The days of an era up to one of them, without the leap days of the years that are over. -/
def evenDays (n : Int) : Int := n - n / 1460 + n / 36524 - n / 146096

theorem evenDays_le (h : n ≤ k) : evenDays n ≤ evenDays k := by
  unfold evenDays
  omega

theorem evenDays_yearStart (h : 0 ≤ y ∧ y ≤ 400) : evenDays (yearStart y) = 365 * y := by
  obtain ⟨hlow, hhigh⟩ := h
  by_cases hlast : y = 400
  · rw [hlast]
    rfl
  have hera : y / 400 = 0 := by omega
  have hfour : yearStart y / 1460 = y / 4 := by unfold yearStart; omega
  have hcentury : yearStart y / 36524 = y / 100 := by unfold yearStart; omega
  have hfirst : yearStart y / 146096 = 0 := by unfold yearStart; omega
  rw [evenDays, hfour, hcentury, hfirst, yearStart]
  omega

/-- On the last day of a year the year is not over yet. -/
theorem evenDays_yearStart_pred (h : 1 ≤ y ∧ y ≤ 400) :
    evenDays (yearStart y - 1) < 365 * y := by
  obtain ⟨hlow, hhigh⟩ := h
  by_cases hlast : y = 400
  · rw [hlast]
    decide
  have hera : y / 400 = 0 := by omega
  have hfour : y / 4 ≤ (yearStart y - 1) / 1460 := by unfold yearStart; omega
  have hcentury : (yearStart y - 1) / 36524 ≤ y / 100 := by unfold yearStart; omega
  have hfirst : (yearStart y - 1) / 146096 = 0 := by unfold yearStart; omega
  unfold evenDays yearStart at *
  omega

/-- Without leap days every year has the same length, and the year of a day is a quotient. -/
theorem evenDays_div (hy : 0 ≤ y ∧ y < 400) (h : yearStart y ≤ n ∧ n < yearStart (y + 1)) :
    evenDays n / 365 = y := by
  have hlow := evenDays_le h.1
  have hhigh := evenDays_le (Int.le_sub_one_of_lt h.2)
  rw [evenDays_yearStart ⟨hy.1, Int.le_of_lt hy.2⟩] at hlow
  have hnext := evenDays_yearStart_pred (y := y + 1) (by omega)
  omega

/-! ### The computation of a date -/

theorem yearStart_add_era (y e : Int) : yearStart (y + 400 * e) = yearStart y + daysOfEra * e := by
  unfold yearStart daysOfEra
  omega

theorem yearStart_bounds (h : 0 ≤ y ∧ y ≤ 400) :
    0 ≤ yearStart y ∧ yearStart y ≤ daysOfEra := by
  unfold yearStart daysOfEra
  omega

theorem exists_era (y : Int) : ∃ c e, y = c + 400 * e ∧ 0 ≤ c ∧ c < 400 :=
  ⟨y % 400, y / 400, by omega, by omega, by omega⟩

theorem div_of_monthStart_le (h : monthStart m ≤ n ∧ n < monthStart (m + 1)) :
    (5 * n + 2) / 153 = m := by
  unfold monthStart at h
  omega

/-- The date of day `k` of month `m` of year `y`, where years start in March, and months and days
are counted from 0. -/
theorem dateOf_eq (hm : 0 ≤ m) (hk : 0 ≤ k ∧ monthStart m + k < monthStart (m + 1))
    (hy : yearStart y + (monthStart m + k) < yearStart (y + 1))
    (hn : n + 719468 = yearStart y + (monthStart m + k)) :
    dateOf n = ⟨if m < 10 then y else y + 1, (if m < 10 then m + 3 else m - 9).toNat,
      (k + 1).toNat⟩ := by
  obtain ⟨c, e, rfl, hc⟩ := exists_era y
  have hstart : 0 ≤ monthStart m := by unfold monthStart; omega
  have hin : yearStart c + (monthStart m + k) < yearStart (c + 1) := by
    have hnext : c + 400 * e + 1 = c + 1 + 400 * e := by omega
    rw [hnext, yearStart_add_era, yearStart_add_era] at hy
    omega
  have hshift : n + 719468 = yearStart c + (monthStart m + k) + daysOfEra * e := by
    rw [hn, yearStart_add_era]
    omega
  have hera : 0 ≤ yearStart c ∧ yearStart (c + 1) ≤ daysOfEra :=
    ⟨(yearStart_bounds ⟨hc.1, Int.le_of_lt hc.2⟩).1, (yearStart_bounds (by omega)).2⟩
  -- the era, the day in it, the year, the day in it, and the month are those that are computed
  have hdiv : (n + 719468).fdiv daysOfEra = e := by
    rw [Int.fdiv_eq_ediv_of_nonneg _ (by decide), hshift]
    unfold daysOfEra at *
    omega
  have hmod : (n + 719468).fmod daysOfEra = yearStart c + (monthStart m + k) := by
    rw [Int.fmod_eq_emod_of_nonneg _ (by decide), hshift]
    unfold daysOfEra at *
    omega
  have hyear := evenDays_div hc ⟨by omega, hin⟩
  have hpast : 365 * c + c / 4 - c / 100 = yearStart c := by unfold yearStart; omega
  have hrest : yearStart c + (monthStart m + k) - yearStart c = monthStart m + k := by omega
  have hmonth : (5 * (monthStart m + k) + 2) / 153 = m := div_of_monthStart_le ⟨by omega, hk.2⟩
  have hday : monthStart m + k - monthStart m = k := by omega
  unfold evenDays at hyear
  unfold dateOf
  simp only [hdiv, hmod, hyear, hpast, hrest, hmonth]
  rw [← monthStart, hday]
  congr 1
  split <;> split <;> omega

/-- The day of a date lies in month `m` of year `y`, counted in this way. -/
structure Date.Within (d : Date) (y m : Int) : Prop where
  nonneg : 0 ≤ m
  first : firstOf d.year d.month = yearStart y + monthStart m
  inMonth : monthStart m + d.day ≤ monthStart (m + 1)
  inYear : yearStart y + (monthStart m + d.day) ≤ yearStart (y + 1)
  year : d.year = if m < 10 then y else y + 1
  month : (d.month : Int) = if m < 10 then m + 3 else m - 9

/-- January and February belong to the year before. -/
theorem Date.Valid.exists_within (h : d.Valid) : ∃ y m, d.Within y m := by
  obtain ⟨hmonth, hday⟩ := h
  by_cases hearly : d.month ≤ 2
  · have hmarch := yearStart_eq d.year
    have hfit : monthStart (d.month + 9) + d.day ≤ monthStart (d.month + 9 + 1) ∧
        monthStart (d.month + 9) + d.day ≤ monthStart 11 + daysOfMonth d.year 2 := by
      have hjanuary : daysOfMonth d.year 1 = 31 := rfl
      have hfebruary := daysOfMonth_february_le d.year
      unfold monthStart
      obtain heq | heq : d.month = 1 ∨ d.month = 2 := by omega
      all_goals
        rw [heq] at hday ⊢
        omega
    refine ⟨d.year - 1, d.month + 9, by omega, if_pos hearly, hfit.1, ?_, by omega, by omega⟩
    rw [Int.sub_add_cancel]
    omega
  · have hnext := yearStart_eq (d.year + 1)
    rw [Int.add_sub_cancel] at hnext
    have hlate : 3 ≤ d.month ∧ d.month ≤ 12 := by omega
    have hfit := monthStart_succ d.year hlate
    have hlast : monthStart (d.month - 3 + 1) ≤ monthStart 11 := by unfold monthStart; omega
    exact ⟨d.year, d.month - 3, by omega, if_neg hearly, by omega, by omega, by omega, by omega⟩

/-- The date of the day of a date. -/
theorem dateOf_days (h : d.Valid) : dateOf d.days = d := by
  obtain ⟨y, m, hw⟩ := h.exists_within
  have hday := h.day.1
  have hmonth := hw.inMonth
  have hyear := hw.inYear
  have hshift : d.days + 719468 = yearStart y + (monthStart m + (d.day - 1)) := by
    rw [Date.days, hw.first]
    omega
  rw [dateOf_eq hw.nonneg (by omega) (by omega) hshift, ← hw.year, ← hw.month]
  simp

/-! ### The calendar -/

/-- Every day is that of a date: of one that follows the first of March of an early year. -/
theorem exists_days (n : Int) : ∃ d : Date, d.Valid ∧ d.days = n := by
  have hmarch : Date.Valid ⟨min n 0, 3, 1⟩ :=
    ⟨⟨Nat.le_add_left 1 2, Nat.le_add_left 3 9⟩, Nat.le_refl 1, daysOfMonth_pos ..⟩
  have hstart : Date.days ⟨min n 0, 3, 1⟩ ≤ n := by
    simp only [Date.days, firstOf, yearStart, monthStart]
    omega
  generalize Date.mk (min n 0) 3 1 = first at hmarch hstart
  induction n, hstart using Int.leInduction with
  | base => exact ⟨first, hmarch, rfl⟩
  | succ n _ ih =>
    obtain ⟨d, hd, rfl⟩ := ih
    exact ⟨d.next, hd.next, hd.days_next⟩

theorem valid_dateOf (n : Int) : (dateOf n).Valid := by
  obtain ⟨d, hd, rfl⟩ := exists_days n
  rwa [dateOf_days hd]

/-- The next day has the next date. -/
theorem dateOf_succ (n : Int) : dateOf (n + 1) = (dateOf n).next := by
  obtain ⟨d, hd, rfl⟩ := exists_days n
  rw [dateOf_days hd, ← hd.days_next, dateOf_days hd.next]

/-- So all dates follow from that of the day from which the days are counted. -/
example : dateOf 0 = ⟨1970, 1, 1⟩ := by decide

/-- Later days have greater dates. -/
theorem number_dateOf_lt (h : n < k) : (dateOf n).number < (dateOf k).number :=
  strictMono_int_of_lt_succ (fun n => dateOf_succ n ▸ (valid_dateOf n).number_lt_next) h

theorem year_dateOf_le (h : n ≤ k) : (dateOf n).year ≤ (dateOf k).year := by
  rcases Int.lt_or_eq_of_le h with hlt | heq
  · exact (valid_dateOf k).year_le (number_dateOf_lt hlt)
  · rw [heq]

end Renaming.Calendar
