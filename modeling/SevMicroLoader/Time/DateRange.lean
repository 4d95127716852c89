import SevMicroLoader.Rust.U64
import SevMicroLoader.Time.HttpDate

/-!
# Headers that are no dates

`parseHttpDate` looks at the form of a header and not at its numbers: it accepts the day 0, 31
February and the hour 99. `HeaderFields` says, by a grammar, which numbers a header writes,
`DateFields.Real` that they are a date and a time of the day, and `checkedTimestamp` is the
conversion with every wrap noticed. For a real date no step wraps exactly when its seconds fit
(`checkedTimestamp_eq`), so that a header is treated as it should be exactly when it writes no
numbers that leave the calendar (`DateFields.OffCalendar`).
-/

namespace SevMicroLoader.Time
open Rust Calendar

/-! ## The numbers of a header -/

/-- The hour, the minute and the second, apart by colons; a colon ends what is looked at. -/
def ClockWord (cs : List Char) (hour minute second : UInt64) : Prop :=
  ∃ h m s rest, cs = h ++ ':' :: (m ++ ':' :: (s ++ rest)) ∧ (∀ c ∈ rest.head?, c = ':') ∧
    Numeral h hour ∧ Numeral m minute ∧ Numeral s second

/-- The header writes these numbers: its first five words are any word, the day, the name of the
month, the year and the time. -/
def HeaderFields (dateStr : String) (f : DateFields) : Prop :=
  ∃ dayName day month year time rest,
    Words isWhitespace dateStr.toList (dayName :: day :: month :: year :: time :: rest) ∧
    Numeral day f.day ∧ (∃ i, monthNames[i]? = some (String.ofList month) ∧ f.month = i + 1) ∧
    Numeral year f.year ∧ ClockWord time f.hour f.minute f.second

theorem monthNumber_eq_some_iff {name : String} {m : ℕ} :
    monthNumber name = some m ↔ ∃ i, monthNames[i]? = some name ∧ m = i + 1 := by
  constructor
  · intro h
    refine ⟨m - 1, ?_⟩
    unfold monthNumber at h
    split at h <;> cases h <;> exact ⟨rfl, rfl⟩
  · rintro ⟨i, hname, rfl⟩
    obtain ⟨hi, rfl⟩ := List.getElem?_eq_some_iff.mp hname
    have hlen : i < 12 := hi
    interval_cases i <;> rfl

/-- The parts of a text between its colons, the first three apart from the others. -/
theorem eq_of_split {timeStr h m s : String} {rest : List String}
    (hsplit : split timeStr ':' = h :: m :: s :: rest) :
    ∃ tail, timeStr.toList = h.toList ++ ':' :: (m.toList ++ ':' :: (s.toList ++ tail)) ∧
      ∀ c ∈ tail.head?, c = ':' := by
  have hparts : timeStr.toList.splitOn ':' = (h :: m :: s :: rest).map String.toList := by
    rw [← hsplit, split, List.map_map]
    simp only [Function.comp_def, String.toList_ofList, List.map_id']
  have htext : [':'].intercalate (timeStr.toList.splitOn ':') = timeStr.toList :=
    List.intercalate_splitOn ':'
  rw [hparts] at htext
  cases rest with
  | nil =>
      refine ⟨[], by simpa [List.intercalate] using htext.symm, fun c hc => ?_⟩
      exact absurd hc (Option.not_mem_none c)
  | cons r rest =>
      refine ⟨':' :: List.intercalate [':'] ((r :: rest).map String.toList), ?_, ?_⟩
      · simpa [List.intercalate] using htext.symm
      · rintro c ⟨⟩
        rfl

theorem parseTime_eq_some_iff {timeStr : String} {hour minute second : UInt64} :
    parseTime timeStr = some (hour, minute, second) ↔
      ClockWord timeStr.toList hour minute second := by
  constructor
  · intro h
    unfold parseTime at h
    split at h
    · next hourStr minuteStr secondStr rest hsplit =>
      simp only [Option.bind_eq_bind, Option.bind_eq_some_iff] at h
      obtain ⟨_, hhour, _, hminute, _, hsecond, heq⟩ := h
      cases heq
      obtain ⟨tail, htext, htail⟩ := eq_of_split hsplit
      exact ⟨_, _, _, tail, htext, htail, parseU64_eq_some_iff.mp hhour,
        parseU64_eq_some_iff.mp hminute, parseU64_eq_some_iff.mp hsecond⟩
    · cases h
  · rintro ⟨h, m, s, rest, htext, hrest, hhour, hminute, hsecond⟩
    have hthird : ∃ more, split (String.ofList (s ++ rest)) ':' = String.ofList s :: more := by
      cases rest with
      | nil => exact ⟨[], by rw [List.append_nil, split_last hsecond.colon_not_mem]⟩
      | cons c rest =>
          obtain rfl := hrest c rfl
          exact ⟨_, split_part hsecond.colon_not_mem rest⟩
    obtain ⟨more, hmore⟩ := hthird
    have hsplit : split timeStr ':' =
        String.ofList h :: String.ofList m :: String.ofList s :: more := by
      rw [← String.ofList_toList (s := timeStr), htext, split_part hhour.colon_not_mem,
        split_part hminute.colon_not_mem, hmore]
    rw [← String.toList_ofList (l := h)] at hhour
    rw [← String.toList_ofList (l := m)] at hminute
    rw [← String.toList_ofList (l := s)] at hsecond
    rw [parseTime, hsplit]
    simp only [parseU64_eq_some_iff.mpr hhour, parseU64_eq_some_iff.mpr hminute,
      parseU64_eq_some_iff.mpr hsecond, Option.bind_eq_bind, Option.bind_some]

/-- **The parser reads the numbers of the grammar.** -/
theorem parseFields_eq_some_iff {dateStr : String} {f : DateFields} :
    parseFields dateStr = some f ↔ HeaderFields dateStr f := by
  constructor
  · intro h
    unfold parseFields at h
    split at h
    · next dayName dayStr monthStr yearStr timeStr rest hwords =>
      simp only [Option.bind_eq_bind, Option.bind_eq_some_iff] at h
      obtain ⟨_, hday, _, hyear, _, hmonth, ⟨_, _, _⟩, htime, heq⟩ := h
      cases heq
      refine ⟨_, _, _, _, _, _, splitWhitespace_eq_iff.mp hwords, parseU64_eq_some_iff.mp hday, ?_,
        parseU64_eq_some_iff.mp hyear, parseTime_eq_some_iff.mp htime⟩
      rw [String.ofList_toList]
      exact monthNumber_eq_some_iff.mp hmonth
    · cases h
  · rintro ⟨dayName, day, month, year, time, rest, hwords, hday, hmonth, hyear, htime⟩
    have hsplit : splitWhitespace dateStr =
        [dayName, day, month, year, time].map String.ofList ++ rest.map String.ofList := by
      rw [splitWhitespace_eq_iff, List.map_append, List.map_map, List.map_map]
      simpa [Function.comp_def] using hwords
    rw [← String.toList_ofList (l := day)] at hday
    rw [← String.toList_ofList (l := year)] at hyear
    rw [← String.toList_ofList (l := time)] at htime
    rw [parseFields, hsplit]
    simp only [List.map_cons, List.map_nil, List.cons_append, List.nil_append,
      parseU64_eq_some_iff.mpr hday, parseU64_eq_some_iff.mpr hyear,
      monthNumber_eq_some_iff.mpr hmonth, parseTime_eq_some_iff.mpr htime, Option.bind_eq_bind,
      Option.bind_some]

theorem HeaderFields.month_mem {dateStr : String} {f : DateFields} (h : HeaderFields dateStr f) :
    1 ≤ f.month ∧ f.month ≤ 12 := by
  obtain ⟨_, _, _, _, _, _, -, -, ⟨i, hname, hmonth⟩, -⟩ := h
  obtain ⟨hi, -⟩ := List.getElem?_eq_some_iff.mp hname
  have hlen : i < 12 := hi
  omega

/-! ## The conversion with its wraps noticed -/

/-- `yearLoop`, or `none` where the sum wraps. -/
def checkedYearLoop : ℕ → UInt64 → UInt64 → Option UInt64
  | 0, _, days => some days
  | n + 1, y, days =>
      (checkedAdd days (if isLeapYear y then 366 else 365)).bind (checkedYearLoop n (y + 1))

/-- `monthLoop`, or `none` where the sum wraps. -/
def checkedMonthLoop (year : UInt64) (month : ℕ) (days : UInt64) : Option UInt64 :=
  (List.range' 1 (month - 1)).foldlM (fun days m => checkedAdd days ((monthDays year).getD m 0))
    days

/-- `fieldDays`, or `none` where one of its steps wraps. -/
def checkedDays (f : DateFields) : Option UInt64 := do
  let days ← checkedYearLoop (f.year.toNat - 1970) 1970 0
  let days ← checkedMonthLoop f.year f.month days
  checkedAdd days (← checkedSub f.day 1)

/-- `timestamp`, or `none` where one of its steps wraps. -/
def checkedTimestamp (f : DateFields) : Option UInt64 := do
  let secs ← checkedMul (← checkedDays f) 86400
  let secs ← checkedAdd secs (← checkedMul f.hour 3600)
  let secs ← checkedAdd secs (← checkedMul f.minute 60)
  checkedAdd secs f.second

/-! ### It is the conversion where nothing wraps -/

variable {f : DateFields}

theorem yearLoop_of_checked {n : ℕ} {y days days' : UInt64}
    (h : checkedYearLoop n y days = some days') : yearLoop n y days = days' := by
  induction n generalizing y days with
  | zero => exact Option.some.inj h
  | succ n ih =>
      obtain ⟨days₁, hadd, hrest⟩ := Option.bind_eq_some_iff.mp h
      rw [yearLoop, ← eq_add_of_checkedAdd hadd]
      exact ih hrest

theorem monthLoop_of_checked {year : UInt64} {month : ℕ} {days days' : UInt64}
    (h : checkedMonthLoop year month days = some days') : monthLoop year month days = days' := by
  rw [checkedMonthLoop] at h
  rw [monthLoop]
  generalize List.range' 1 (month - 1) = months at *
  induction months generalizing days with
  | nil => exact Option.some.inj h
  | cons m months ih =>
      rw [List.foldlM_cons] at h
      obtain ⟨days₁, hadd, hrest⟩ := Option.bind_eq_some_iff.mp h
      rw [List.foldl_cons, ← eq_add_of_checkedAdd hadd]
      exact ih hrest

theorem fieldDays_of_checked {days : UInt64} (h : checkedDays f = some days) :
    fieldDays f = days := by
  simp only [checkedDays, Option.bind_eq_bind, Option.bind_eq_some_iff] at h
  obtain ⟨days₁, hyears, days₂, hmonths, before, hbefore, hadd⟩ := h
  rw [fieldDays, yearLoop_of_checked hyears, monthLoop_of_checked hmonths,
    ← eq_sub_of_checkedSub hbefore, ← eq_add_of_checkedAdd hadd]

/-- **Where no step wraps, the code's result is the checked one.** -/
theorem timestamp_of_checked {t : UInt64} (h : checkedTimestamp f = some t) : timestamp f = t := by
  simp only [checkedTimestamp, Option.bind_eq_bind, Option.bind_eq_some_iff] at h
  obtain ⟨days, hdays, secs₁, hsecs₁, hours, hhours, secs₂, hsecs₂, minutes, hminutes, secs₃,
    hsecs₃, hadd⟩ := h
  rw [timestamp, fieldDays_of_checked hdays, ← eq_mul_of_checkedMul hsecs₁,
    ← eq_mul_of_checkedMul hhours, ← eq_add_of_checkedAdd hsecs₂,
    ← eq_mul_of_checkedMul hminutes, ← eq_add_of_checkedAdd hsecs₃, ← eq_add_of_checkedAdd hadd]

/-! ## Real dates -/

/-- The numbers are a date from 1970 on and a time of the day, maybe in a leap second. -/
structure DateFields.Real (f : DateFields) : Prop where
  epoch : 1970 ≤ f.year.toNat
  month : 1 ≤ f.month ∧ f.month ≤ 12
  day : 1 ≤ f.day.toNat ∧ f.day.toNat ≤ monthLength f.year.toNat f.month
  hour : f.hour.toNat < 24
  minute : f.minute.toNat < 60
  second : f.second.toNat ≤ 60

/-- The seconds since the first second of 1970, by the closed day count. -/
def DateFields.unixSeconds (f : DateFields) : ℕ :=
  (dayNumber f.year.toNat f.month f.day.toNat - dayNumber 1970 1 1) * 86400 +
    f.hour.toNat * 3600 + f.minute.toNat * 60 + f.second.toNat

/-- The loop over the years wraps when the sum of the years does. -/
theorem bind_checkedYearLoop (n : ℕ) {y : ℕ} (hy : 1 ≤ y) (h : y + n < 2 ^ 64) (days : ℕ) :
    (tryFromNat days).bind (checkedYearLoop n (UInt64.ofNat y)) =
      tryFromNat (days + (daysBeforeYear (y + n) - daysBeforeYear y)) := by
  induction n generalizing y days with
  | zero =>
      rw [Nat.add_zero, Nat.sub_self, Nat.add_zero]
      exact Option.bind_fun_some _
  | succ n ih =>
      have hlength : yearLength y < 2 ^ 64 := by
        unfold yearLength
        split <;> decide
      have hround : ((tryFromNat days).bind fun days =>
          checkedAdd days (UInt64.ofNat (yearLength y))) = tryFromNat (days + yearLength y) := by
        rw [bind_checkedAdd, UInt64.toNat_ofNat_of_lt' hlength]
      calc (tryFromNat days).bind (checkedYearLoop (n + 1) (UInt64.ofNat y))
          = ((tryFromNat days).bind fun days =>
              checkedAdd days (UInt64.ofNat (yearLength y))).bind
                (checkedYearLoop n (UInt64.ofNat (y + 1))) := by
            rw [Option.bind_assoc, UInt64.ofNat_add]
            refine congrArg _ (funext fun days => ?_)
            rw [checkedYearLoop, yearLength_ofNat (by omega)]
            rfl
        _ = tryFromNat (days + yearLength y +
              (daysBeforeYear (y + 1 + n) - daysBeforeYear (y + 1))) := by
            rw [hround, ih (by omega) (by omega)]
        _ = tryFromNat (days + (daysBeforeYear (y + (n + 1)) - daysBeforeYear y)) := by
            rw [Nat.add_assoc, yearLength_add_sub hy]

/-- The loop over the months wraps when the sum of the months does. -/
theorem bind_checkedMonthLoop {y m : ℕ} (hy : y < 2 ^ 64) (hm : 1 ≤ m) (hm' : m ≤ 12)
    (days : ℕ) :
    (tryFromNat days).bind (checkedMonthLoop (UInt64.ofNat y) m) =
      tryFromNat (days + daysBeforeMonth y m) := by
  induction m, hm using Nat.le_induction with
  | base => exact Option.bind_fun_some _
  | succ m hm ih =>
      have hlength : monthLength y m < 2 ^ 64 := by
        unfold monthLength
        split <;> (try split) <;> decide
      have hlast : ∀ days, checkedMonthLoop (UInt64.ofNat y) (m + 1) days =
          (checkedMonthLoop (UInt64.ofNat y) m days).bind fun days =>
            checkedAdd days (UInt64.ofNat (monthLength y m)) := by
        intro days
        obtain ⟨k, rfl⟩ := Nat.exists_eq_add_of_le' hm
        rw [checkedMonthLoop, checkedMonthLoop, Nat.add_sub_cancel, Nat.add_sub_cancel,
          List.range'_concat, List.foldlM_append, ← getD_monthDays hy hm (by omega),
          show 1 + 1 * k = k + 1 by omega]
        simp only [List.foldlM_cons, List.foldlM_nil, Option.bind_eq_bind, Option.pure_def,
          Option.bind_fun_some]
      calc (tryFromNat days).bind (checkedMonthLoop (UInt64.ofNat y) (m + 1))
          = ((tryFromNat days).bind (checkedMonthLoop (UInt64.ofNat y) m)).bind fun days =>
              checkedAdd days (UInt64.ofNat (monthLength y m)) := by
            rw [Option.bind_assoc]
            exact congrArg _ (funext hlast)
        _ = tryFromNat (days + daysBeforeMonth y (m + 1)) := by
            rw [ih (by omega), bind_checkedAdd, UInt64.toNat_ofNat_of_lt' hlength,
              daysBeforeMonth_succ hm (by omega), Nat.add_assoc]

theorem checkedDays_eq (h : f.Real) : checkedDays f =
    tryFromNat (dayNumber f.year.toNat f.month f.day.toNat - dayNumber 1970 1 1) := by
  have hyear := f.year.toNat_lt
  have hone : (1 : UInt64).toNat ≤ f.day.toNat := h.day.1
  have hbefore : checkedSub f.day 1 = some (f.day - 1) := by
    rw [checkedSub, if_pos hone]
  have hday : (f.day - 1).toNat = f.day.toNat - 1 := UInt64.toNat_sub_of_le _ _ h.day.1
  have hyears : checkedYearLoop (f.year.toNat - 1970) 1970 0 =
      tryFromNat (daysBeforeYear f.year.toNat - daysBeforeYear 1970) := by
    have hloop := bind_checkedYearLoop (f.year.toNat - 1970) (y := 1970) (by decide)
      (by have := h.epoch; omega) 0
    rw [show 1970 + (f.year.toNat - 1970) = f.year.toNat by have := h.epoch; omega,
      Nat.zero_add, show tryFromNat 0 = some 0 from rfl, Option.bind_some] at hloop
    rw [show (1970 : UInt64) = UInt64.ofNat 1970 from rfl, hloop]
  have hmonths := bind_checkedMonthLoop hyear h.month.1 h.month.2
    (daysBeforeYear f.year.toNat - daysBeforeYear 1970)
  rw [UInt64.ofNat_toNat] at hmonths
  have hmono : daysBeforeYear 1970 ≤ daysBeforeYear f.year.toNat :=
    daysBeforeYear_mono (by decide) h.epoch
  have hpos := h.day.1
  calc checkedDays f
      = ((checkedYearLoop (f.year.toNat - 1970) 1970 0).bind
          (checkedMonthLoop f.year f.month)).bind fun days => checkedAdd days (f.day - 1) := by
        rw [checkedDays, hbefore]
        simp only [Option.bind_eq_bind, Option.bind_assoc, Option.bind_some]
    _ = tryFromNat (daysBeforeYear f.year.toNat - daysBeforeYear 1970 +
          daysBeforeMonth f.year.toNat f.month + (f.day.toNat - 1)) := by
        rw [hyears, hmonths, bind_checkedAdd, hday]
    _ = tryFromNat (dayNumber f.year.toNat f.month f.day.toNat - dayNumber 1970 1 1) := by
        refine congrArg tryFromNat ?_
        simp only [dayNumber, daysBeforeMonth_one]
        omega

/-- **On a date no step wraps exactly when its seconds fit**, and then they are the result. -/
theorem checkedTimestamp_eq (h : f.Real) : checkedTimestamp f = tryFromNat f.unixSeconds := by
  have hhour := h.hour
  have hminute := h.minute
  have h3600 : (3600 : UInt64).toNat = 3600 := rfl
  have h60 : (60 : UInt64).toNat = 60 := rfl
  have hhours : checkedMul f.hour 3600 = some (f.hour * 3600) := by
    rw [checkedMul, h3600, if_pos (by omega)]
  have hminutes : checkedMul f.minute 60 = some (f.minute * 60) := by
    rw [checkedMul, h60, if_pos (by omega)]
  have hhoursNat : (f.hour * 3600).toNat = f.hour.toNat * 3600 := by
    rw [UInt64.toNat_mul, h3600]
    omega
  have hminutesNat : (f.minute * 60).toNat = f.minute.toNat * 60 := by
    rw [UInt64.toNat_mul, h60]
    omega
  calc checkedTimestamp f
      = ((((checkedDays f).bind fun days => checkedMul days 86400).bind fun secs =>
          checkedAdd secs (f.hour * 3600)).bind fun secs =>
          checkedAdd secs (f.minute * 60)).bind fun secs => checkedAdd secs f.second := by
        rw [checkedTimestamp, hhours, hminutes]
        simp only [Option.bind_eq_bind, Option.bind_assoc, Option.bind_some]
    _ = tryFromNat f.unixSeconds := by
        rw [checkedDays_eq h, bind_checkedMul _ (by decide), bind_checkedAdd, bind_checkedAdd,
          bind_checkedAdd, hhoursNat, hminutesNat]
        rfl

/-! ## What is accepted -/

/-- A header that is accepted writes the numbers of a date, and no step of the conversion wraps. -/
def RejectsNonDates (dateStr : String) : Prop :=
  ∀ t, parseHttpDate dateStr = some t →
    ∃ f, HeaderFields dateStr f ∧ f.Real ∧ checkedTimestamp f = some t

/-- The ways out of the calendar that numbers and the name of a month have. -/
inductive DateFields.OffCalendar (f : DateFields) : Prop
  | beforeEpoch (h : f.year.toNat < 1970)
  | dayZero (h : f.day.toNat = 0)
  | pastMonth (h : monthLength f.year.toNat f.month < f.day.toNat)
  | hour (h : 24 ≤ f.hour.toNat)
  | minute (h : 60 ≤ f.minute.toNat)
  | second (h : 60 < f.second.toNat)
  /-- The seconds since 1970 are no `u64`. -/
  | late (h : 2 ^ 64 ≤ f.unixSeconds)

/-- Numbers stay in the calendar if they are a date whose seconds fit. -/
theorem not_offCalendar_iff (hmonth : 1 ≤ f.month ∧ f.month ≤ 12) :
    ¬ f.OffCalendar ↔ f.Real ∧ f.unixSeconds < 2 ^ 64 := by
  constructor
  · intro h
    refine ⟨?_, not_le.mp fun hlate => h (.late hlate)⟩
    constructor
    case epoch => exact not_lt.mp fun hearly => h (.beforeEpoch hearly)
    case month => exact hmonth
    case day =>
      exact ⟨Nat.one_le_iff_ne_zero.mpr fun hzero => h (.dayZero hzero),
        not_lt.mp fun hpast => h (.pastMonth hpast)⟩
    case hour => exact not_le.mp fun hhour => h (.hour hhour)
    case minute => exact not_le.mp fun hminute => h (.minute hminute)
    case second => exact not_lt.mp fun hsecond => h (.second hsecond)
  · rintro ⟨hreal, hfits⟩ hoff
    cases hoff with
    | beforeEpoch hearly => exact absurd hreal.epoch (not_le.mpr hearly)
    | dayZero hzero => exact absurd hreal.day.1 (by rw [hzero]; decide)
    | pastMonth hpast => exact absurd hreal.day.2 (not_le.mpr hpast)
    | hour hhour => exact absurd hreal.hour (not_lt.mpr hhour)
    | minute hminute => exact absurd hreal.minute (not_lt.mpr hminute)
    | second hsecond => exact absurd hreal.second (not_le.mpr hsecond)
    | late hlate => exact absurd hfits (not_lt.mpr hlate)

/-- **When a header is treated as it should be.** The code checks the form of a header alone, so
this is when it writes no numbers that leave the calendar. -/
theorem rejectsNonDates_iff (dateStr : String) : RejectsNonDates dateStr ↔
    ∀ f, HeaderFields dateStr f → ¬ f.OffCalendar := by
  constructor
  · intro hrejects f hfields
    have hparse : parseHttpDate dateStr = some (timestamp f) := by
      rw [parseHttpDate, parseFields_eq_some_iff.mpr hfields, Option.map_some]
    obtain ⟨f', hfields', hreal, hchecked⟩ := hrejects _ hparse
    rw [← parseFields_eq_some_iff] at hfields hfields'
    rw [hfields] at hfields'
    cases hfields'
    rw [not_offCalendar_iff hreal.month]
    refine ⟨hreal, ?_⟩
    rw [← isSome_tryFromNat, ← checkedTimestamp_eq hreal, hchecked]
    rfl
  · intro hdates t hparse
    obtain ⟨f, hparsed, htimestamp⟩ := Option.map_eq_some_iff.mp hparse
    have hfields := parseFields_eq_some_iff.mp hparsed
    obtain ⟨hreal, hfits⟩ := (not_offCalendar_iff hfields.month_mem).mp (hdates f hfields)
    refine ⟨f, hfields, hreal, ?_⟩
    obtain ⟨t', hchecked⟩ := Option.isSome_iff_exists.mp
      ((checkedTimestamp_eq hreal).symm ▸ (isSome_tryFromNat _).mpr hfits)
    rw [hchecked, ← htimestamp, timestamp_of_checked hchecked]

/-- The day 0 of January 1970 is accepted, as the last day of a time far ahead. -/
theorem day_zero_accepted :
    parseHttpDate "Mon, 00 Jan 1970 00:00:00 GMT" = some 18446744073709465216 ∧
      ¬ ∀ dateStr, RejectsNonDates dateStr := by
  have hparse : parseHttpDate "Mon, 00 Jan 1970 00:00:00 GMT" = some 18446744073709465216 := by
    decide +kernel
  refine ⟨hparse, ?_⟩
  intro hall
  obtain ⟨f, hfields, hreal, -⟩ := hall _ _ hparse
  have hday : (parseFields "Mon, 00 Jan 1970 00:00:00 GMT").map (·.day) = some 0 := by
    decide +kernel
  rw [parseFields_eq_some_iff.mpr hfields] at hday
  have hzero : f.day = 0 := Option.some.inj hday
  have hpos := hreal.day.1
  rw [hzero] at hpos
  exact absurd hpos (by decide)

end SevMicroLoader.Time
