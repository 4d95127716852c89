import Mathlib.Algebra.Order.Group.Nat
import Mathlib.Tactic.IntervalCases

/-!
# The proleptic Gregorian calendar

`dayNumber` is a closed day count from 1 January of year 1, with the 4/100/400 rule for the
years and the 367/12 rule for the months. Its differences over a year and over a month are
the lengths of the year and of the month (`daysBeforeYear_succ`, `daysBeforeMonth_succ`), so
it and the seconds since 1970 follow the order of the calendar (`unixSeconds_lt`).
-/

namespace Calendar

def IsLeap (y : ℕ) : Prop := (y % 4 = 0 ∧ ¬ y % 100 = 0) ∨ y % 400 = 0

instance (y : ℕ) : Decidable (IsLeap y) := inferInstanceAs (Decidable (_ ∨ _))

def yearLength (y : ℕ) : ℕ := if IsLeap y then 366 else 365

/-- The length of a month, January being 1. -/
def monthLength (y : ℕ) : ℕ → ℕ
  | 2 => if IsLeap y then 29 else 28
  | 4 | 6 | 9 | 11 => 30
  | _ => 31

/-- The days from 1 January of year 1 to the first day of year `y`. -/
def daysBeforeYear (y : ℕ) : ℕ := 365 * (y - 1) + (y - 1) / 4 - (y - 1) / 100 + (y - 1) / 400

/-- The days from the first day of the year to the first day of month `m`. -/
def daysBeforeMonth (y m : ℕ) : ℕ :=
  (367 * m - 362) / 12 - if m ≤ 2 then 0 else if IsLeap y then 1 else 2

/-- The number of a day, 1 January of year 1 being 1. -/
def dayNumber (y m d : ℕ) : ℕ := daysBeforeYear y + daysBeforeMonth y m + d

variable {y m : ℕ}

/-- A quotient grows by one at the multiples of the divisor. -/
theorem succ_div_of_mod (k n : ℕ) : (k + 1) / n = k / n + if (k + 1) % n = 0 then 1 else 0 := by
  simp only [Nat.succ_div, Nat.dvd_iff_mod_eq_zero]

/-- **The leap rule sums up**: a year is as long as the day count says. -/
theorem daysBeforeYear_succ (hy : 1 ≤ y) :
    daysBeforeYear (y + 1) = daysBeforeYear y + yearLength y := by
  obtain ⟨k, rfl⟩ := Nat.exists_eq_add_of_le' hy
  have h100 : (k + 1) % 400 = 0 → (k + 1) % 100 = 0 := by omega
  have h4 : (k + 1) % 100 = 0 → (k + 1) % 4 = 0 := by omega
  have hle : k / 100 ≤ k / 4 := Nat.div_le_div_left (by decide) (by decide)
  unfold daysBeforeYear yearLength IsLeap
  simp only [Nat.add_sub_cancel, succ_div_of_mod k]
  generalize k / 4 = a at *
  generalize k / 100 = b at *
  generalize k / 400 = c at *
  by_cases hc : (k + 1) % 400 = 0
  · simp only [hc, h100 hc, h4 (h100 hc), if_true, or_true]
    omega
  · by_cases hb : (k + 1) % 100 = 0
    · simp only [hc, hb, h4 hb, if_true, if_false, not_true, and_false, or_false]
      omega
    · by_cases ha : (k + 1) % 4 = 0
      · simp only [hc, hb, ha, if_true, if_false, not_false_iff, and_true, true_or]
        omega
      · simp only [hc, hb, ha, if_false, false_and, or_false]
        omega

@[simp] theorem daysBeforeMonth_one (y : ℕ) : daysBeforeMonth y 1 = 0 := rfl

/-- **The month rule sums up**: a month is as long as the day count says. -/
theorem daysBeforeMonth_succ (hm : 1 ≤ m) (hm' : m ≤ 12) :
    daysBeforeMonth y (m + 1) = daysBeforeMonth y m + monthLength y m := by
  unfold daysBeforeMonth monthLength
  by_cases hleap : IsLeap y
  · interval_cases m <;> simp [hleap]
  · interval_cases m <;> simp [hleap]

theorem daysBeforeMonth_thirteen (y : ℕ) : daysBeforeMonth y 13 = yearLength y := by
  unfold daysBeforeMonth yearLength
  by_cases hleap : IsLeap y <;> simp [hleap]

theorem daysBeforeYear_mono {y' : ℕ} (hy : 1 ≤ y) (h : y ≤ y') :
    daysBeforeYear y ≤ daysBeforeYear y' := by
  induction y', h using Nat.le_induction with
  | base => exact le_rfl
  | succ k hk ih =>
      rw [daysBeforeYear_succ (hy.trans hk)]
      omega

/-- The days of `n + 1` years are those of the first and those of the rest. -/
theorem yearLength_add_sub (hy : 1 ≤ y) (n : ℕ) :
    yearLength y + (daysBeforeYear (y + 1 + n) - daysBeforeYear (y + 1)) =
      daysBeforeYear (y + (n + 1)) - daysBeforeYear y := by
  have hstep := daysBeforeYear_succ hy
  have hmono : daysBeforeYear (y + 1) ≤ daysBeforeYear (y + 1 + n) :=
    daysBeforeYear_mono (by omega) (by omega)
  rw [show y + (n + 1) = y + 1 + n by omega]
  omega

theorem daysBeforeMonth_mono {m' : ℕ} (hm : 1 ≤ m) (h : m ≤ m') (hm' : m' ≤ 13) :
    daysBeforeMonth y m ≤ daysBeforeMonth y m' := by
  induction m', h using Nat.le_induction with
  | base => exact le_rfl
  | succ k hk ih =>
      have hprev := ih (by omega)
      rw [daysBeforeMonth_succ (hm.trans hk) (by omega)]
      omega

theorem le_daysBeforeYear (y : ℕ) : 365 * (y - 1) ≤ daysBeforeYear y := by
  have hle : (y - 1) / 100 ≤ (y - 1) / 4 := Nat.div_le_div_left (by decide) (by decide)
  unfold daysBeforeYear
  omega

/-! ## Dates -/

/-- A date of the calendar and a time of the day. -/
structure DateTime where
  year : ℕ
  month : ℕ
  day : ℕ
  hour : ℕ
  minute : ℕ
  second : ℕ
  year_pos : 1 ≤ year
  month_mem : 1 ≤ month ∧ month ≤ 12
  day_mem : 1 ≤ day ∧ day ≤ monthLength year month
  hour_lt : hour < 24
  minute_lt : minute < 60
  second_lt : second < 60

namespace DateTime

/-- The number of the date's day. -/
def days (t : DateTime) : ℕ := dayNumber t.year t.month t.day

/-- The seconds of the day. -/
def clock (t : DateTime) : ℕ := t.hour * 3600 + t.minute * 60 + t.second

/-- The seconds since the first second of 1970. -/
def unixSeconds (t : DateTime) : ℕ := (t.days - dayNumber 1970 1 1) * 86400 + t.clock

/-- The order of the calendar. -/
def Before (s t : DateTime) : Prop :=
  s.year < t.year ∨ s.year = t.year ∧ (s.month < t.month ∨ s.month = t.month ∧
    (s.day < t.day ∨ s.day = t.day ∧ (s.hour < t.hour ∨ s.hour = t.hour ∧
      (s.minute < t.minute ∨ s.minute = t.minute ∧ s.second < t.second))))

instance (s t : DateTime) : Decidable (s.Before t) := inferInstanceAs (Decidable (_ ∨ _))

theorem clock_lt (t : DateTime) : t.clock < 86400 := by
  have hh := t.hour_lt
  have hm := t.minute_lt
  have hs := t.second_lt
  unfold clock
  omega

/-- A day comes before the next month. -/
theorem day_le (t : DateTime) :
    daysBeforeMonth t.year t.month + t.day ≤ daysBeforeMonth t.year (t.month + 1) := by
  rw [daysBeforeMonth_succ t.month_mem.1 t.month_mem.2]
  exact Nat.add_le_add_left t.day_mem.2 _

/-- A day comes before the next year. -/
theorem days_le (t : DateTime) : t.days ≤ daysBeforeYear (t.year + 1) := by
  have hmonth : daysBeforeMonth t.year (t.month + 1) ≤ daysBeforeMonth t.year 13 :=
    daysBeforeMonth_mono (by omega) (by have := t.month_mem.2; omega) le_rfl
  have hday := t.day_le
  rw [daysBeforeMonth_thirteen] at hmonth
  rw [days, dayNumber, daysBeforeYear_succ t.year_pos]
  omega

theorem daysBeforeYear_lt (t : DateTime) : daysBeforeYear t.year < t.days := by
  have hday := t.day_mem.1
  rw [days, dayNumber]
  omega

/-- An earlier day has a smaller number. -/
theorem days_lt {s t : DateTime} (h : s.year < t.year ∨ s.year = t.year ∧
    (s.month < t.month ∨ s.month = t.month ∧ s.day < t.day)) : s.days < t.days := by
  rcases h with hyear | ⟨hyear, hmonth | ⟨hmonth, hday⟩⟩
  · calc s.days ≤ daysBeforeYear (s.year + 1) := s.days_le
      _ ≤ daysBeforeYear t.year := daysBeforeYear_mono (by omega) hyear
      _ < t.days := t.daysBeforeYear_lt
  · have hnext : daysBeforeMonth t.year (s.month + 1) ≤ daysBeforeMonth t.year t.month :=
      daysBeforeMonth_mono (by omega) hmonth (by have := t.month_mem.2; omega)
    have hle := s.day_le
    have hpos := t.day_mem.1
    rw [days, days, dayNumber, dayNumber, hyear]
    rw [hyear] at hle
    omega
  · rw [days, days, dayNumber, dayNumber, hyear, hmonth]
    omega

theorem epoch_le_days {t : DateTime} (h : 1970 ≤ t.year) : dayNumber 1970 1 1 ≤ t.days := by
  have hyear : daysBeforeYear 1970 ≤ daysBeforeYear t.year := daysBeforeYear_mono (by decide) h
  have hlt := t.daysBeforeYear_lt
  rw [dayNumber, daysBeforeMonth_one]
  omega

/-- The seconds bound the year. -/
theorem year_lt_of_unixSeconds_lt {t : DateTime} {n : ℕ} (hn : 719163 * 86400 ≤ n)
    (h : t.unixSeconds < n) : t.year < n := by
  have hyear := le_daysBeforeYear t.year
  have hdays := t.daysBeforeYear_lt
  have hepoch : dayNumber 1970 1 1 = 719163 := by decide
  rw [unixSeconds, hepoch] at h
  omega

/-- **The seconds since 1970 follow the order of the calendar.** -/
theorem unixSeconds_lt {s t : DateTime} (hs : 1970 ≤ s.year) (h : s.Before t) :
    s.unixSeconds < t.unixSeconds := by
  have hepoch := epoch_le_days hs
  have hclock := s.clock_lt
  rw [unixSeconds, unixSeconds]
  by_cases hday : s.year < t.year ∨ s.year = t.year ∧
      (s.month < t.month ∨ s.month = t.month ∧ s.day < t.day)
  · have hlt := days_lt hday
    omega
  · -- the same day, so the times of the day decide
    unfold Before at h
    have hyear : s.year = t.year := by omega
    have hmonth : s.month = t.month := by omega
    have hsame : s.day = t.day := by omega
    have hdays : s.days = t.days := by rw [days, days, hyear, hmonth, hsame]
    have hlt : s.clock < t.clock := by
      have hsm := s.minute_lt
      have hss := s.second_lt
      unfold clock
      omega
    omega

end DateTime

end Calendar
