import SevMicroLoader.Lib.Calendar
import SevMicroLoader.Rust.Str

/-!
# The `Date` header

`parseHttpDate` takes the first five words of a header, reads the day, the month, the year
and the three parts of the time, and adds up the days of the years since 1970, of the months
and of the month in wrapping `u64` arithmetic. On the IMF-fixdate text of a calendar date it
returns the seconds since 1970 of the closed day count.
-/

namespace SevMicroLoader.Time
open Rust Calendar

/-! ## The parser -/

/-- `is_leap_year`. -/
def isLeapYear (year : UInt64) : Bool :=
  (year % 4 == 0 && !(year % 100 == 0)) || year % 400 == 0

/-- The number of a month, from 1 on. -/
def monthNumber : String → Option ℕ
  | "Jan" => some 1
  | "Feb" => some 2
  | "Mar" => some 3
  | "Apr" => some 4
  | "May" => some 5
  | "Jun" => some 6
  | "Jul" => some 7
  | "Aug" => some 8
  | "Sep" => some 9
  | "Oct" => some 10
  | "Nov" => some 11
  | "Dec" => some 12
  | _ => none

/-- The numbers a header writes. -/
structure DateFields where
  day : UInt64
  month : ℕ
  year : UInt64
  hour : UInt64
  minute : UInt64
  second : UInt64
  deriving DecidableEq, Repr

/-- The first three parts of the time; further parts are not looked at. -/
def parseTime (timeStr : String) : Option (UInt64 × UInt64 × UInt64) :=
  match split timeStr ':' with
  | hourStr :: minuteStr :: secondStr :: _ => do
      let hour ← parseU64 hourStr
      let minute ← parseU64 minuteStr
      let second ← parseU64 secondStr
      some (hour, minute, second)
  | _ => none

/-- `parse_http_date` up to the conversion: the first five words. -/
def parseFields (dateStr : String) : Option DateFields :=
  match splitWhitespace dateStr with
  | _dayName :: dayStr :: monthStr :: yearStr :: timeStr :: _ => do
      let day ← parseU64 dayStr
      let year ← parseU64 yearStr
      let month ← monthNumber monthStr
      let (hour, minute, second) ← parseTime timeStr
      some { day, month, year, hour, minute, second }
  | _ => none

/-- The loop over the years: how many are left, the next one, and the days so far. -/
def yearLoop : ℕ → UInt64 → UInt64 → UInt64
  | 0, _, days => days
  | n + 1, y, days => yearLoop n (y + 1) (days + if isLeapYear y then 366 else 365)

/-- The lengths of the months, from index 1 on. -/
def monthDays (year : UInt64) : List UInt64 :=
  if isLeapYear year then [0, 31, 29, 31, 30, 31, 30, 31, 31, 30, 31, 30, 31]
  else [0, 31, 28, 31, 30, 31, 30, 31, 31, 30, 31, 30, 31]

/-- The loop `for m in 1..month`; a month is at most 12, so every index is in bounds. -/
def monthLoop (year : UInt64) (month : ℕ) (days : UInt64) : UInt64 :=
  (List.range' 1 (month - 1)).foldl (fun days m => days + (monthDays year).getD m 0) days

/-- The days of a date, in `u64`. -/
def fieldDays (f : DateFields) : UInt64 :=
  monthLoop f.year f.month (yearLoop (f.year.toNat - 1970) 1970 0) + (f.day - 1)

/-- The Unix timestamp of a date, in `u64`. -/
def timestamp (f : DateFields) : UInt64 :=
  fieldDays f * 86400 + f.hour * 3600 + f.minute * 60 + f.second

/-- The seconds since 1970 that a `Date` header says. -/
def parseHttpDate (dateStr : String) : Option UInt64 := (parseFields dateStr).map timestamp

/-- The two dates of the loader's own tests. -/
example : parseHttpDate "Mon, 01 Jun 2026 12:41:36 GMT" = some 1780317696 ∧
    parseHttpDate "Tue, 02 Jun 2026 00:00:00 GMT" = some 1780358400 ∧
    parseHttpDate "Mon, 01 Jun 2026 12:41 GMT" = none := by decide +kernel

/-! ## The text of a date -/

/-- The names of the days. -/
def dayNames : List String := ["Mon", "Tue", "Wed", "Thu", "Fri", "Sat", "Sun"]

/-- The names of the months. -/
def monthNames : List String :=
  ["Jan", "Feb", "Mar", "Apr", "May", "Jun", "Jul", "Aug", "Sep", "Oct", "Nov", "Dec"]

/-- Two digits, with a leading zero. -/
def twoDigits (n : ℕ) : List Char := [(n / 10 % 10).digitChar, (n % 10).digitChar]

/-- `HH:MM:SS`. -/
def clockText (t : DateTime) : List Char :=
  twoDigits t.hour ++ ':' :: (twoDigits t.minute ++ ':' :: twoDigits t.second)

/-- The name of the month. -/
def monthText (t : DateTime) : String := monthNames.getD (t.month - 1) ""

/-- `Ddd, DD Mon YYYY HH:MM:SS GMT`, with the given day name. -/
def imfFixdate (dayName : String) (t : DateTime) : String :=
  String.ofList ((dayName.toList ++ [',']) ++ ' ' :: (twoDigits t.day ++ ' ' ::
    ((monthText t).toList ++ ' ' :: (Nat.toDigits 10 t.year ++ ' ' ::
      (clockText t ++ ' ' :: "GMT".toList)))))

/-! ## Reading the text back -/

section Words
variable {n : ℕ}

theorem isDigit_digitChar {d : ℕ} (h : d < 10) : d.digitChar.isDigit := by
  interval_cases d <;> decide

theorem isDigit_of_mem_twoDigits {c : Char} (h : c ∈ twoDigits n) : c.isDigit := by
  simp only [twoDigits, List.mem_cons, List.not_mem_nil, or_false] at h
  rcases h with rfl | rfl
  · exact isDigit_digitChar (Nat.mod_lt _ (by decide))
  · exact isDigit_digitChar (Nat.mod_lt _ (by decide))

theorem isWhitespace_of_isDigit {c : Char} (h : c.isDigit) : isWhitespace c = false := by
  rw [Char.isDigit, Bool.and_eq_true, decide_eq_true_eq, decide_eq_true_eq] at h
  have hlow : 48 ≤ c.toNat := h.1
  have hhigh : c.toNat ≤ 57 := h.2
  unfold isWhitespace
  simp
  omega

theorem colon_not_mem {cs : List Char} (h : ∀ c ∈ cs, c.isDigit) : ':' ∉ cs :=
  fun hc => absurd (h _ hc) (by decide)

theorem twoDigits_ne_nil (n : ℕ) : twoDigits n ≠ [] := List.cons_ne_nil _ _

theorem decimalValue_twoDigits (h : n < 100) : decimalValue 0 (twoDigits n) = n := by
  change (0 * 10 + ((n / 10 % 10).digitChar.toNat - 48)) * 10 + ((n % 10).digitChar.toNat - 48) = n
  rw [toNat_digitChar (Nat.mod_lt _ (by decide)), toNat_digitChar (Nat.mod_lt _ (by decide))]
  omega

theorem parseU64_twoDigits (h : n < 100) :
    parseU64 (String.ofList (twoDigits n)) = some (UInt64.ofNat n) := by
  have hval := decimalValue_twoDigits h
  rw [parseU64_digits (twoDigits_ne_nil n) (fun c => isDigit_of_mem_twoDigits) (by omega), hval]

theorem isDigit_of_mem_toDigits {c : Char} (h : c ∈ Nat.toDigits 10 n) : c.isDigit :=
  Nat.isDigit_of_mem_toDigits (by decide) (by decide) h

theorem toDigits_ne_nil (n : ℕ) : Nat.toDigits 10 n ≠ [] := by
  rw [Nat.toDigits_eq_if (by decide)]
  split
  · exact List.cons_ne_nil _ _
  · simp

theorem parseU64_toDigits (h : n < 2 ^ 64) :
    parseU64 (String.ofList (Nat.toDigits 10 n)) = some (UInt64.ofNat n) := by
  have hval := decimalValue_toDigits n
  rw [parseU64_digits (toDigits_ne_nil n) (fun c => isDigit_of_mem_toDigits) (by omega), hval]

variable (t : DateTime)

theorem isWhitespace_of_mem_clockText {c : Char} (h : c ∈ clockText t) :
    isWhitespace c = false := by
  simp only [clockText, List.mem_append, List.mem_cons] at h
  rcases h with h | rfl | h | rfl | h
  · exact isWhitespace_of_isDigit (isDigit_of_mem_twoDigits h)
  · decide
  · exact isWhitespace_of_isDigit (isDigit_of_mem_twoDigits h)
  · decide
  · exact isWhitespace_of_isDigit (isDigit_of_mem_twoDigits h)

theorem parseTime_clockText :
    parseTime (String.ofList (clockText t)) =
      some (UInt64.ofNat t.hour, UInt64.ofNat t.minute, UInt64.ofNat t.second) := by
  have hh := t.hour_lt
  have hm := t.minute_lt
  have hs := t.second_lt
  rw [parseTime, clockText, split_part (colon_not_mem fun _ => isDigit_of_mem_twoDigits),
    split_part (colon_not_mem fun _ => isDigit_of_mem_twoDigits),
    split_last (colon_not_mem fun _ => isDigit_of_mem_twoDigits)]
  simp only [parseU64_twoDigits (show t.hour < 100 by omega),
    parseU64_twoDigits (show t.minute < 100 by omega),
    parseU64_twoDigits (show t.second < 100 by omega)]
  rfl

theorem monthNumber_monthText : monthNumber (monthText t) = some t.month := by
  obtain ⟨hlow, hhigh⟩ := t.month_mem
  unfold monthText
  generalize t.month = m at *
  interval_cases m <;> rfl

theorem monthText_mem : monthText t ∈ monthNames := by
  obtain ⟨hlow, hhigh⟩ := t.month_mem
  unfold monthText
  generalize t.month = m at *
  interval_cases m <;> decide

end Words

/-- The fields of a calendar date. -/
def fieldsOf (t : DateTime) : DateFields where
  day := UInt64.ofNat t.day
  month := t.month
  year := UInt64.ofNat t.year
  hour := UInt64.ofNat t.hour
  minute := UInt64.ofNat t.minute
  second := UInt64.ofNat t.second

/-- The names are words. -/
theorem names_are_words : (∀ name ∈ dayNames, ∀ c ∈ name.toList ++ [','], isWhitespace c = false) ∧
    ∀ name ∈ monthNames, name.toList ≠ [] ∧ ∀ c ∈ name.toList, isWhitespace c = false := by
  have hdays : dayNames.all fun name => (name.toList ++ [',']).all fun c => !isWhitespace c := by
    decide +kernel
  have hmonths : monthNames.all fun name =>
      !name.toList.isEmpty && name.toList.all fun c => !isWhitespace c := by
    decide +kernel
  simp only [List.all_eq_true, Bool.and_eq_true, Bool.not_eq_true', List.isEmpty_eq_false_iff]
    at hdays hmonths
  exact ⟨hdays, hmonths⟩

/-- **The text of a date is read back into its numbers.** -/
theorem parseFields_imfFixdate {dayName : String} (hname : dayName ∈ dayNames) (t : DateTime)
    (hyear : t.year < 2 ^ 64) :
    parseFields (imfFixdate dayName t) = some (fieldsOf t) := by
  have hday : t.day < 100 := by
    have hle := t.day_mem.2
    have hmonth : monthLength t.year t.month ≤ 31 := by
      unfold monthLength
      split <;> (try split) <;> omega
    omega
  have hclock : clockText t ≠ [] := by simp [clockText, twoDigits]
  obtain ⟨hmonthNe, hmonthWord⟩ := names_are_words.2 _ (monthText_mem t)
  rw [parseFields, imfFixdate, splitWhitespace_word (by simp) (names_are_words.1 _ hname),
    splitWhitespace_word (twoDigits_ne_nil _)
      (fun c hc => isWhitespace_of_isDigit (isDigit_of_mem_twoDigits hc)),
    splitWhitespace_word hmonthNe hmonthWord,
    splitWhitespace_word (toDigits_ne_nil _)
      (fun c hc => isWhitespace_of_isDigit (isDigit_of_mem_toDigits hc)),
    splitWhitespace_word hclock (fun c hc => isWhitespace_of_mem_clockText t hc)]
  simp only [parseU64_twoDigits hday, parseU64_toDigits hyear, String.ofList_toList,
    monthNumber_monthText, parseTime_clockText]
  rfl

/-! ## The day count -/

/-- The leap rule on a `u64` is the leap rule. -/
theorem isLeapYear_ofNat {y : ℕ} (h : y < 2 ^ 64) :
    isLeapYear (UInt64.ofNat y) = decide (IsLeap y) := by
  have hmod (k : ℕ) (hk : k < 2 ^ 64) (hpos : 0 < k) :
      (UInt64.ofNat y % UInt64.ofNat k == 0) = decide (y % k = 0) := by
    have heq : UInt64.ofNat y % UInt64.ofNat k = 0 ↔ y % k = 0 := by
      rw [← UInt64.toNat_inj, UInt64.toNat_mod, UInt64.toNat_ofNat_of_lt' h,
        UInt64.toNat_ofNat_of_lt' hk]
      rfl
    by_cases h0 : y % k = 0 <;> simp [h0, heq]
  have h4 := hmod 4 (by decide) (by decide)
  have h100 := hmod 100 (by decide) (by decide)
  have h400 := hmod 400 (by decide) (by decide)
  rw [isLeapYear, show (4 : UInt64) = UInt64.ofNat 4 from rfl,
    show (100 : UInt64) = UInt64.ofNat 100 from rfl,
    show (400 : UInt64) = UInt64.ofNat 400 from rfl, h4, h100, h400, Bool.eq_iff_iff,
    decide_eq_true_iff, IsLeap]
  simp

theorem yearLength_ofNat {y : ℕ} (h : y < 2 ^ 64) :
    (if isLeapYear (UInt64.ofNat y) then 366 else 365 : UInt64) = UInt64.ofNat (yearLength y) := by
  rw [isLeapYear_ofNat h, yearLength]
  by_cases hleap : IsLeap y <;> simp [hleap]

/-- **The loop over the years** adds the days between the first days of two years. -/
theorem yearLoop_eq (n : ℕ) {y : ℕ} (hy : 1 ≤ y) (h : y + n < 2 ^ 64) (days : ℕ) :
    yearLoop n (UInt64.ofNat y) (UInt64.ofNat days) =
      UInt64.ofNat (days + (daysBeforeYear (y + n) - daysBeforeYear y)) := by
  induction n generalizing y days with
  | zero => simp [yearLoop]
  | succ n ih =>
      rw [yearLoop, yearLength_ofNat (by omega), ← UInt64.ofNat_add,
        show UInt64.ofNat y + 1 = UInt64.ofNat (y + 1) from (UInt64.ofNat_add y 1).symm,
        ih (by omega) (by omega), Nat.add_assoc, yearLength_add_sub hy]

/-- The table of the months is the table of their lengths. -/
theorem getD_monthDays {y m : ℕ} (hy : y < 2 ^ 64) (hm : 1 ≤ m) (hm' : m ≤ 12) :
    (monthDays (UInt64.ofNat y)).getD m 0 = UInt64.ofNat (monthLength y m) := by
  rw [monthDays, isLeapYear_ofNat hy]
  unfold monthLength
  by_cases hleap : IsLeap y
  · interval_cases m <;> simp [hleap]
  · interval_cases m <;> simp [hleap]

/-- **The loop over the months** adds the days before the month. -/
theorem monthLoop_eq {y m : ℕ} (hy : y < 2 ^ 64) (hm : 1 ≤ m) (hm' : m ≤ 12) (days : ℕ) :
    monthLoop (UInt64.ofNat y) m (UInt64.ofNat days) =
      UInt64.ofNat (days + daysBeforeMonth y m) := by
  induction m, hm using Nat.le_induction with
  | base => simp [monthLoop]
  | succ m hm ih =>
      have hprev := ih (by omega)
      rw [monthLoop] at hprev
      rw [monthLoop, Nat.add_sub_cancel, show m = m - 1 + 1 by omega, List.range'_concat,
        List.foldl_append, hprev]
      simp only [List.foldl_cons, List.foldl_nil]
      rw [show 1 + 1 * (m - 1) = m by omega, show m - 1 + 1 = m by omega,
        getD_monthDays hy hm (by omega), daysBeforeMonth_succ hm (by omega), ← UInt64.ofNat_add,
        Nat.add_assoc]

/-- **The conversion counts days**, up to the wrapping of `u64`. -/
theorem timestamp_fieldsOf {t : DateTime} (hepoch : 1970 ≤ t.year) (hyear : t.year < 2 ^ 64) :
    timestamp (fieldsOf t) = UInt64.ofNat t.unixSeconds := by
  have hrounds : (UInt64.ofNat t.year).toNat - 1970 = t.year - 1970 := by
    rw [UInt64.toNat_ofNat_of_lt' hyear]
  have hloop := yearLoop_eq (t.year - 1970) (y := 1970) (by decide) (by omega) 0
  have hday : UInt64.ofNat t.day - 1 = UInt64.ofNat (t.day - 1) :=
    (UInt64.ofNat_sub t.day_mem.1).symm
  rw [show 1970 + (t.year - 1970) = t.year by omega] at hloop
  have hdays : fieldDays (fieldsOf t) = UInt64.ofNat (t.days - dayNumber 1970 1 1) := by
    simp only [fieldDays, fieldsOf]
    rw [hrounds, show (1970 : UInt64) = UInt64.ofNat 1970 from rfl,
      show (0 : UInt64) = UInt64.ofNat 0 from rfl, hloop,
      monthLoop_eq hyear t.month_mem.1 t.month_mem.2, hday, ← UInt64.ofNat_add]
    refine congrArg UInt64.ofNat ?_
    have hle : daysBeforeYear 1970 ≤ daysBeforeYear t.year := daysBeforeYear_mono (by decide) hepoch
    have hpos := t.day_mem.1
    simp only [DateTime.days, dayNumber, daysBeforeMonth_one]
    omega
  rw [timestamp, hdays, fieldsOf, show (86400 : UInt64) = UInt64.ofNat 86400 from rfl,
    show (3600 : UInt64) = UInt64.ofNat 3600 from rfl,
    show (60 : UInt64) = UInt64.ofNat 60 from rfl]
  simp only [← UInt64.ofNat_mul, ← UInt64.ofNat_mul, ← UInt64.ofNat_mul, ← UInt64.ofNat_add,
    ← UInt64.ofNat_add, ← UInt64.ofNat_add, DateTime.unixSeconds, DateTime.clock, ← Nat.add_assoc,
    ← Nat.add_assoc]

/-- A calendar date since 1970 whose seconds fit is parsed to its seconds. -/
theorem parseHttpDate_eq_some {dayName : String} (hname : dayName ∈ dayNames) {t : DateTime}
    (hepoch : 1970 ≤ t.year) (hfit : t.unixSeconds < 2 ^ 64) :
    parseHttpDate (imfFixdate dayName t) = some (UInt64.ofNat t.unixSeconds) := by
  have hyear : t.year < 2 ^ 64 := DateTime.year_lt_of_unixSeconds_lt (by decide) hfit
  rw [parseHttpDate, parseFields_imfFixdate hname t hyear, Option.map_some,
    timestamp_fieldsOf hepoch hyear]

/-- **Every valid date is parsed to its seconds since 1970**, and a later date to a larger
number. -/
theorem parseHttpDate_correct (dayName : String) (t : DateTime) (hname : dayName ∈ dayNames)
    (hepoch : 1970 ≤ t.year) (hfit : t.unixSeconds < 2 ^ 64) :
    (∃ secs, parseHttpDate (imfFixdate dayName t) = some secs ∧ secs.toNat = t.unixSeconds) ∧
    ∀ (dayName' : String) (s : DateTime) (a b : UInt64), dayName' ∈ dayNames → 1970 ≤ s.year →
      s.Before t → parseHttpDate (imfFixdate dayName' s) = some a →
      parseHttpDate (imfFixdate dayName t) = some b → a < b := by
  have ht := parseHttpDate_eq_some hname hepoch hfit
  refine ⟨⟨_, ht, UInt64.toNat_ofNat_of_lt' hfit⟩, ?_⟩
  intro dayName' s a b hname' hepoch' hbefore ha hb
  have hlt := DateTime.unixSeconds_lt hepoch' hbefore
  rw [parseHttpDate_eq_some hname' hepoch' (hlt.trans hfit)] at ha
  rw [ht] at hb
  cases ha
  cases hb
  rw [UInt64.lt_iff_toNat_lt, UInt64.toNat_ofNat_of_lt' hfit,
    UInt64.toNat_ofNat_of_lt' (hlt.trans hfit)]
  exact hlt

/-- The last second of the leap day of a century year. -/
def leapDay : DateTime :=
  ⟨2000, 2, 29, 23, 59, 59, by decide, by decide, by decide, by decide, by decide, by decide⟩

/-- The second after it. -/
def marchFirst : DateTime :=
  ⟨2000, 3, 1, 0, 0, 0, by decide, by decide, by decide, by decide, by decide, by decide⟩

theorem parseHttpDate_correct_leap_day :
    (∃ secs, parseHttpDate (imfFixdate "Tue" leapDay) = some secs ∧ secs.toNat = 951868799) ∧
    ∀ a b, parseHttpDate (imfFixdate "Tue" leapDay) = some a →
      parseHttpDate (imfFixdate "Wed" marchFirst) = some b → a < b := by
  constructor
  · exact (parseHttpDate_correct "Tue" leapDay (by decide) (by decide) (by decide)).1
  · intro a b ha hb
    exact (parseHttpDate_correct "Wed" marchFirst (by decide) (by decide) (by decide)).2
      "Tue" leapDay a b (by decide) (by decide) (by decide) ha hb

end SevMicroLoader.Time
