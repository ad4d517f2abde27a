import Renaming.Proofs.Calendar.Date
import Renaming.Proofs.Source.Segment

/-!
The name of the directory of a run, as a text. Numbers of one width with zeros in front are in order
as texts (`padded_lt_padded`), and those that stand side by side are one number (`padded_append`).
So in the years of four digits a name is two numbers of fixed widths, one for the date and one for
the time of day (`toList_compact`), and names are in the order of their instants, but for leap
seconds in the middle of a minute (`compact_lt_compact_iff`).
-/

namespace Renaming

/-! ### The order of texts -/

theorem append_lt_append {α : Type} [LT α] {xs ys us vs : List α} (hlen : xs.length = ys.length)
    (h : xs < ys) : xs ++ us < ys ++ vs := by
  induction h with
  | nil => cases hlen
  | rel hlt => exact .rel hlt
  | cons _ ih => exact .cons (ih (Nat.succ.inj hlen))

theorem utf8_cons_of_lt {c : Char} (h : c.toNat < 0x80) (cs : List Char) :
    utf8 (c :: cs) = UInt8.ofNat c.toNat :: utf8 cs := by
  rw [← List.singleton_append, utf8_append, utf8_of_lt h, List.singleton_append]

/-- Texts in ASCII are in the order of their bytes. -/
theorem utf8_lt_utf8 {xs ys : List Char} (hx : ∀ c ∈ xs, c.toNat < 0x80)
    (hy : ∀ c ∈ ys, c.toNat < 0x80) (h : xs < ys) : utf8 xs < utf8 ys := by
  induction h with
  | @nil c cs =>
    rw [utf8_cons_of_lt (hy c List.mem_cons_self)]
    exact .nil
  | @rel c cs d ds hlt =>
    have hc := hx c List.mem_cons_self
    have hd := hy d List.mem_cons_self
    rw [utf8_cons_of_lt hc, utf8_cons_of_lt hd]
    refine .rel (UInt8.lt_iff_toNat_lt.2 ?_)
    rw [UInt8.toNat_ofNat', UInt8.toNat_ofNat', Nat.mod_eq_of_lt (by omega),
      Nat.mod_eq_of_lt (by omega)]
    exact hlt
  | @cons c cs ds _ ih =>
    obtain ⟨hc, hcs⟩ := List.forall_mem_cons.1 hx
    rw [utf8_cons_of_lt hc, utf8_cons_of_lt hc]
    exact .cons (ih hcs (List.forall_mem_cons.1 hy).2)

theorem toList_toUTF8 (text : String) : text.toUTF8.data.toList = utf8 text.toList := by
  rw [Source.toUTF8_eq, Source.Segment.encoded]

namespace Calendar

variable {v w n k : Nat} {c : Char}

/-! ### Numbers with zeros in front -/

theorem isDigit_of_mem_padded (h : c ∈ padded w n) : c.isDigit = true := by
  rcases List.mem_append.1 h with h | h
  · rw [(List.mem_replicate.1 h).2]
    rfl
  · exact Nat.isDigit_of_mem_toDigits (by decide) (by decide) h

theorem mem_yearText {year : Int} (h : c ∈ yearText year) :
    c.isDigit = true ∨ c = '-' ∨ c = '+' := by
  unfold yearText at h
  split at h
  · exact .inl (isDigit_of_mem_padded h)
  · rcases List.mem_cons.1 h with h | h
    · split at h
      · exact .inr (.inl h)
      · exact .inr (.inr h)
    · exact .inl (isDigit_of_mem_padded h)

theorem length_padded (hw : 0 < w) (h : n < 10 ^ w) : (padded w n).length = w := by
  have hle := (Nat.length_toDigits_le_iff (b := 10) (by decide) hw).2 h
  simp only [padded, List.length_append, List.length_replicate]
  omega

/-- The last digit of a number stands behind the others. -/
theorem padded_succ (hw : 0 < w) (n : Nat) :
    padded (w + 1) n = padded w (n / 10) ++ [Nat.digitChar (n % 10)] := by
  unfold padded
  by_cases h : n < 10
  · obtain ⟨w, rfl⟩ := Nat.exists_eq_add_of_lt hw
    rw [Nat.toDigits_of_lt_base h, Nat.div_eq_of_lt h, Nat.mod_eq_of_lt h, Nat.toDigits_zero]
    simp [List.replicate_succ']
  · rw [Nat.toDigits_of_base_le (by decide) (Nat.le_of_not_lt h)]
    simp

theorem padded_one (h : n < 10) : padded 1 n = [Nat.digitChar n] := by
  rw [padded, Nat.toDigits_of_lt_base h]
  rfl

/-- Of two numbers side by side the second one is the end of one number. -/
theorem padded_append (hv : 0 < v) (hw : 0 < w) (n : Nat) (h : k < 10 ^ w) :
    padded v n ++ padded w k = padded (v + w) (n * 10 ^ w + k) := by
  induction w, hw using Nat.le_induction generalizing k with
  | base =>
    have hdiv : (n * 10 ^ 1 + k) / 10 = n := by omega
    have hmod : (n * 10 ^ 1 + k) % 10 = k := by omega
    rw [padded_one h, padded_succ hv, hdiv, hmod]
  | succ w hw ih =>
    have hpow : n * 10 ^ (w + 1) = n * 10 ^ w * 10 := by rw [Nat.pow_succ, Nat.mul_assoc]
    have hdiv : (n * 10 ^ (w + 1) + k) / 10 = n * 10 ^ w + k / 10 := by omega
    have hmod : (n * 10 ^ (w + 1) + k) % 10 = k % 10 := by omega
    rw [padded_succ hw, ← List.append_assoc, ih (by omega), ← Nat.add_assoc,
      padded_succ (Nat.add_pos_left hv w), hdiv, hmod]

theorem digitChar_lt_digitChar (h : n < k) (hk : k < 10) : Nat.digitChar n < Nat.digitChar k := by
  change (Nat.digitChar n).toNat < (Nat.digitChar k).toNat
  rw [Nat.toNat_digitChar_of_lt_ten (by omega), Nat.toNat_digitChar_of_lt_ten hk]
  omega

/-- Of two numbers of one width the greater one is the greater text. -/
theorem padded_lt_padded (hw : 0 < w) (h : n < k) (hk : k < 10 ^ w) : padded w n < padded w k := by
  induction w, hw using Nat.le_induction generalizing n k with
  | base =>
    rw [padded_one (by omega), padded_one hk]
    exact .rel (digitChar_lt_digitChar h hk)
  | succ w hw ih =>
    have hk' : k / 10 < 10 ^ w := by omega
    rw [padded_succ hw, padded_succ hw]
    rcases Nat.lt_or_eq_of_le (Nat.div_le_div_right (c := 10) (Nat.le_of_lt h)) with hlt | heq
    · refine append_lt_append ?_ (ih hlt hk')
      rw [length_padded hw (hlt.trans hk'), length_padded hw hk']
    · rw [heq]
      exact List.append_left_lt (.rel (digitChar_lt_digitChar (by omega) (by omega)))

end Calendar

namespace Instant

open Calendar

variable {t u : Instant}

/-! ### The characters of names -/

/-- The characters of the name of the directory of a run. -/
theorem mem_compact {c : Char} (h : c ∈ t.compact.toList) :
    c.isDigit = true ∨ c ∈ ['-', '+', 'T', 'Z'] := by
  simp only [compact, clock, String.toList_ofList, List.mem_append, List.mem_cons,
    List.not_mem_nil, or_false] at h
  rcases h with (((h | h) | h) | rfl | (h | h) | h) | rfl
  · rcases mem_yearText h with h | rfl | rfl
    · exact .inl h
    · exact .inr (by decide)
    · exact .inr (by decide)
  all_goals first
    | exact .inl (isDigit_of_mem_padded h)
    | exact .inr (by decide)

theorem lt_of_mem_compact {c : Char} (h : c ∈ t.compact.toList) : c.toNat < 0x80 := by
  rcases mem_compact h with hc | hc
  · simp only [Char.isDigit, Bool.and_eq_true, decide_eq_true_eq, UInt32.le_iff_toNat_le] at hc
    exact Nat.lt_of_le_of_lt hc.2 (by decide)
  · simp only [List.mem_cons, List.not_mem_nil, or_false] at hc
    rcases hc with rfl | rfl | rfl | rfl <;> decide

/-! ### Dates and times of day -/

/-- The time of day as one number, with two digits each for the hour, the minute and the second. -/
def clockNumber (t : Instant) : Nat :=
  (t.secondOfDay / 3600 * 100 + t.secondOfDay / 60 % 60) * 100 +
    (t.secondOfDay % 60 + if t.isLeap then 1 else 0)

theorem secondOfDay_eq (t : Instant) : (t.secondOfDay : Int) = t.seconds % 86400 := by
  rw [secondOfDay, Int.fmod_eq_emod_of_nonneg _ (by decide)]
  omega

theorem secondOfDay_lt (t : Instant) : t.secondOfDay < 86400 := by
  have := t.secondOfDay_eq
  omega

theorem date_eq (t : Instant) : t.date = dateOf (t.seconds / 86400) := by
  rw [date, Int.fdiv_eq_ediv_of_nonneg _ (by decide)]

theorem valid_date (t : Instant) : t.date.Valid := valid_dateOf _

theorem clockNumber_lt (t : Instant) : t.clockNumber < 10 ^ 6 := by
  have := t.secondOfDay_lt
  unfold clockNumber
  split <;> omega

/-- A leap second in the middle of a minute, and the second behind it. Both are counted as that
second. -/
def Meets (t u : Instant) : Prop :=
  t.isLeap = true ∧ t.seconds % 60 ≠ 59 ∧ u.seconds = t.seconds + 1 ∧ u.isLeap = false

instance : Decidable (t.Meets u) := by unfold Meets; infer_instance

/-- Later in a day the time of day is greater, if the two seconds are not counted as one. -/
theorem clockNumber_lt_clockNumber (h : t.seconds < u.seconds)
    (hday : t.seconds / 86400 = u.seconds / 86400) (hmeets : ¬ t.Meets u) :
    t.clockNumber < u.clockNumber := by
  have hhour : ∀ s, s / 3600 = s / 60 / 60 := fun s => (Nat.div_div_eq_div_mul s 60 60).symm
  have ht := t.secondOfDay_eq
  have hu := u.secondOfDay_eq
  have hle : t.secondOfDay / 60 ≤ u.secondOfDay / 60 := by omega
  unfold clockNumber
  rw [hhour, hhour]
  rcases Nat.lt_or_eq_of_le hle with hlt | heq
  · have hminute : t.secondOfDay / 60 / 60 * 100 + t.secondOfDay / 60 % 60 <
        u.secondOfDay / 60 / 60 * 100 + u.secondOfDay / 60 % 60 := by omega
    split <;> omega
  · -- in one minute the first second is not its last one
    have hsecond : t.secondOfDay % 60 < u.secondOfDay % 60 := by omega
    have hcount : t.secondOfDay % 60 + (if t.isLeap then 1 else 0) <
        u.secondOfDay % 60 + if u.isLeap then 1 else 0 := by
      split <;> split <;> try omega
      rename_i htleap huleap
      have hnext : u.seconds ≠ t.seconds + 1 := fun hnext =>
        hmeets ⟨htleap, by omega, hnext, Bool.eq_false_iff.mpr huleap⟩
      omega
    rw [heq]
    omega

theorem number_date_lt (t : Instant) (h : t.date.year ≤ 9999) : t.date.number.toNat < 10 ^ 8 := by
  have hmonth := t.valid_date.month
  have hday := t.valid_date.day_le
  unfold Date.number
  omega

/-- Of two instants the later one has the greater date, or on one date the greater time of day. -/
theorem date_lt_or_clock_lt (h : t.seconds < u.seconds) (hmeets : ¬ t.Meets u) :
    t.date.number < u.date.number ∨ t.date = u.date ∧ t.clockNumber < u.clockNumber := by
  rw [t.date_eq, u.date_eq]
  have hdays : t.seconds / 86400 ≤ u.seconds / 86400 :=
    Int.ediv_le_ediv (by decide) (Int.le_of_lt h)
  rcases Int.lt_or_eq_of_le hdays with hlt | heq
  · exact .inl (number_dateOf_lt hlt)
  · exact .inr ⟨congrArg dateOf heq, clockNumber_lt_clockNumber h heq hmeets⟩

theorem year_date_le (h : t.seconds < u.seconds) : t.date.year ≤ u.date.year := by
  rw [t.date_eq, u.date_eq]
  exact year_dateOf_le (Int.ediv_le_ediv (by decide) (Int.le_of_lt h))

/-! ### Names in order -/

/-- In the years of four digits a name is made of two numbers. -/
theorem toList_compact (h : 0 ≤ t.date.year ∧ t.date.year ≤ 9999) :
    t.compact.toList =
      padded 8 t.date.number.toNat ++ 'T' :: (padded 6 t.clockNumber ++ ['Z']) := by
  have hday := t.secondOfDay_lt
  have hmonth := t.valid_date.month
  have hlast := t.valid_date.day_le
  have hdate : padded 4 t.date.year.toNat ++ padded 2 t.date.month ++ padded 2 t.date.day =
      padded 8 t.date.number.toNat := by
    rw [padded_append (by decide) (by decide) _ (by omega),
      padded_append (by decide) (by decide) _ (by omega)]
    congr 1
    unfold Date.number
    omega
  have hclock : padded 2 (t.secondOfDay / 3600) ++ padded 2 (t.secondOfDay / 60 % 60) ++
      padded 2 (t.secondOfDay % 60 + if t.isLeap then 1 else 0) = padded 6 t.clockNumber := by
    rw [padded_append (by decide) (by decide) _ (by omega),
      padded_append (by decide) (by decide) _ (by split <;> omega)]
    rfl
  rw [← hdate, ← hclock]
  simp [compact, clock, yearText, h]

/-- Dates decide on the order of names, and between names of one date the times of day. -/
theorem toList_compact_lt (ht : 0 ≤ t.date.year ∧ t.date.year ≤ 9999)
    (hu : 0 ≤ u.date.year ∧ u.date.year ≤ 9999)
    (h : t.date.number < u.date.number ∨ t.date = u.date ∧ t.clockNumber < u.clockNumber) :
    t.compact.toList < u.compact.toList := by
  have htnumber := t.number_date_lt ht.2
  have hunumber := u.number_date_lt hu.2
  have hwide : ∀ {n}, n < 10 ^ 8 → (padded 8 n).length = 8 := length_padded (by decide)
  rw [toList_compact ht, toList_compact hu]
  rcases h with hlt | ⟨heq, hlt⟩
  · have hday := u.valid_date.day
    refine append_lt_append ((hwide htnumber).trans (hwide hunumber).symm)
      (padded_lt_padded (by decide) ?_ hunumber)
    unfold Date.number at *
    omega
  · have hlength : (padded 6 t.clockNumber).length = (padded 6 u.clockNumber).length := by
      rw [length_padded (by decide) t.clockNumber_lt, length_padded (by decide) u.clockNumber_lt]
    rw [heq]
    exact List.append_left_lt (.cons (append_lt_append hlength
      (padded_lt_padded (by decide) hlt u.clockNumber_lt)))

/-- Two instants that are counted as one second have one name. -/
theorem compact_eq_of_meets (h : t.Meets u) : t.compact = u.compact := by
  obtain ⟨htleap, hmiddle, hnext, huleap⟩ := h
  have ht := t.secondOfDay_eq
  have hu := u.secondOfDay_eq
  have hday : t.seconds / 86400 = u.seconds / 86400 := by omega
  have hsecond : u.secondOfDay = t.secondOfDay + 1 := by omega
  have hclock : t.clock = u.clock := by
    have hhour : t.secondOfDay / 3600 = u.secondOfDay / 3600 := by omega
    have hminute : t.secondOfDay / 60 = u.secondOfDay / 60 := by omega
    have hcount : t.secondOfDay % 60 + 1 = u.secondOfDay % 60 := by omega
    simp only [clock, htleap, huleap, hhour, hminute, if_true, hcount, Bool.false_eq_true, if_false,
      Nat.add_zero]
  rw [compact, compact, t.date_eq, u.date_eq, hday, hclock]

/-- From the first day of the year 0 to the last one of the year 9999 names of later instants are
greater, byte for byte, unless the two are counted as one second. -/
theorem compact_lt_compact_iff (ht : 0 ≤ t.date.year) (hu : u.date.year ≤ 9999)
    (h : t.seconds < u.seconds) :
    t.compact.toUTF8.data.toList < u.compact.toUTF8.data.toList ↔ ¬ t.Meets u := by
  refine ⟨fun hlt hmeets => ?_, fun hmeets => ?_⟩
  · rw [compact_eq_of_meets hmeets] at hlt
    exact List.lt_irrefl _ hlt
  · have hyears := year_date_le h
    have horder := date_lt_or_clock_lt h hmeets
    rw [toList_toUTF8, toList_toUTF8]
    exact utf8_lt_utf8 (fun _ => lt_of_mem_compact) (fun _ => lt_of_mem_compact)
      (toList_compact_lt ⟨ht, by omega⟩ ⟨by omega, hu⟩ horder)

end Instant

/-- An instant of a clock: leap seconds stand at the end of a minute, as the seconds `:60`. -/
structure Moment extends Instant where
  endsMinute : toInstant.isLeap = true → seconds % 60 = 59

namespace Moment

variable {t u : Moment}

end Moment

end Renaming
