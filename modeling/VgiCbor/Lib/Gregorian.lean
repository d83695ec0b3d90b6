import Mathlib

/-!
# The proleptic Gregorian calendar

Dates as year, month and day, extended to all years.  `dayNumber` counts the days since
1970-01-01 and `epochSeconds` the seconds since its midnight; on valid dates both grow
with the lexicographic order of their fields (`epochSeconds_lt`).
-/

namespace Gregorian

/-- Every fourth year is a leap year, but of the centuries only every fourth.  Years before
the first one follow the same rule. -/
def IsLeap (year : Int) : Prop := year % 4 = 0 ∧ (year % 100 ≠ 0 ∨ year % 400 = 0)

instance (year : Int) : Decidable (IsLeap year) := inferInstanceAs (Decidable (_ ∧ _))

def monthLength (year month : Int) : Int :=
  if month = 2 then if IsLeap year then 29 else 28
  else if month = 4 ∨ month = 6 ∨ month = 9 ∨ month = 11 then 30
  else 31

def yearLength (year : Int) : Int := if IsLeap year then 366 else 365

/-- The days of a year before the given month. -/
def daysBeforeMonth (year : Int) : Nat → Int
  | 0 => 0
  | 1 => 0
  | month + 1 => daysBeforeMonth year month + monthLength year month

/-- The days from 0001-01-01 to the first day of a year. -/
def daysBeforeYear (year : Int) : Int :=
  365 * (year - 1) + (year - 1) / 4 - (year - 1) / 100 + (year - 1) / 400

/-- A point in time to the second, by its fields as they are printed.  Which fields exist is
said by `Valid`. -/
structure DateTime where
  year : Int
  month : Int
  day : Int
  hour : Int
  minute : Int
  second : Int
  deriving DecidableEq

namespace DateTime

/-- The fields in order of significance. -/
def fields (t : DateTime) : List Int := [t.year, t.month, t.day, t.hour, t.minute, t.second]

/-- The month and day exist, and the time of day too. -/
structure Valid (t : DateTime) : Prop where
  month : 1 ≤ t.month ∧ t.month ≤ 12
  day : 1 ≤ t.day ∧ t.day ≤ monthLength t.year t.month
  hour : 0 ≤ t.hour ∧ t.hour < 24
  minute : 0 ≤ t.minute ∧ t.minute < 60
  second : 0 ≤ t.second ∧ t.second < 60

/-- The days since 1970-01-01. -/
def dayNumber (t : DateTime) : Int :=
  daysBeforeYear t.year - daysBeforeYear 1970 + daysBeforeMonth t.year t.month.toNat + (t.day - 1)

/-- The seconds since 1970-01-01T00:00:00, negative before.  There are no leap seconds. -/
def epochSeconds (t : DateTime) : Int :=
  86400 * t.dayNumber + 3600 * t.hour + 60 * t.minute + t.second

end DateTime

/-! ## Years and months -/

/-- The years are added up. -/
theorem daysBeforeYear_succ (year : Int) :
    daysBeforeYear (year + 1) = daysBeforeYear year + yearLength year := by
  simp only [daysBeforeYear, yearLength, IsLeap]
  split_ifs <;> omega

/-- The twelve months make up the year. -/
theorem daysBeforeMonth_thirteen (year : Int) : daysBeforeMonth year 13 = yearLength year := by
  by_cases hleap : IsLeap year <;> simp [daysBeforeMonth, monthLength, yearLength, hleap]

theorem monthLength_pos (year month : Int) : 0 < monthLength year month := by
  unfold monthLength
  split_ifs <;> decide

theorem daysBeforeMonth_succ (year : Int) {month : Nat} (hmonth : 1 ≤ month) :
    daysBeforeMonth year (month + 1) = daysBeforeMonth year month + monthLength year month := by
  obtain ⟨k, rfl⟩ := Nat.exists_eq_add_of_le' hmonth
  rfl

/-- A later month begins after the end of an earlier one. -/
theorem daysBeforeMonth_le {year : Int} {m n : Nat} (hm : 1 ≤ m) (h : m < n) :
    daysBeforeMonth year m + monthLength year m ≤ daysBeforeMonth year n := by
  induction n with
  | zero => omega
  | succ n ih =>
      rw [daysBeforeMonth_succ year (by omega)]
      rcases Nat.lt_succ_iff_lt_or_eq.1 h with hlt | rfl
      · have hpos := monthLength_pos year n
        have hle := ih hlt
        omega
      · exact le_rfl

/-- A later year begins after the end of an earlier one. -/
theorem daysBeforeYear_le {y z : Int} (h : y < z) :
    daysBeforeYear y + yearLength y ≤ daysBeforeYear z := by
  rw [← daysBeforeYear_succ]
  simp only [daysBeforeYear]
  omega

/-! ## Order -/

namespace DateTime

variable {a b : DateTime}

/-- The day of a year, counted from zero. -/
def dayOfYear (t : DateTime) : Int := daysBeforeMonth t.year t.month.toNat + (t.day - 1)

theorem dayNumber_eq (t : DateTime) :
    t.dayNumber = daysBeforeYear t.year - daysBeforeYear 1970 + t.dayOfYear := by
  rw [dayNumber, dayOfYear, Int.add_assoc]

/-- A valid date lies within its year. -/
theorem Valid.dayOfYear_mem (h : a.Valid) :
    0 ≤ a.dayOfYear ∧ a.dayOfYear < yearLength a.year := by
  obtain ⟨hmonth, hmonth'⟩ := h.month
  obtain ⟨hday, hday'⟩ := h.day
  have hcast : ((a.month.toNat : Nat) : Int) = a.month := Int.toNat_of_nonneg (by omega)
  have hend := @daysBeforeMonth_le a.year a.month.toNat 13 (by omega) (by omega)
  rw [daysBeforeMonth_thirteen, hcast] at hend
  have hstart : 0 ≤ daysBeforeMonth a.year a.month.toNat := by
    rcases Nat.eq_or_lt_of_le (show 1 ≤ a.month.toNat by omega) with hone | hlater
    · rw [← hone]
      exact le_rfl
    · have hle := @daysBeforeMonth_le a.year 1 a.month.toNat le_rfl hlater
      have hpos := monthLength_pos a.year 1
      have hzero : daysBeforeMonth a.year 1 = 0 := rfl
      have hcast' : ((1 : Nat) : Int) = 1 := rfl
      rw [hzero, hcast'] at hle
      omega
  unfold dayOfYear
  omega

/-- A valid time of day is less than a day. -/
theorem Valid.timeOfDay_mem (h : a.Valid) :
    0 ≤ 3600 * a.hour + 60 * a.minute + a.second ∧
      3600 * a.hour + 60 * a.minute + a.second < 86400 := by
  obtain ⟨hh, hh'⟩ := h.hour
  obtain ⟨hm, hm'⟩ := h.minute
  obtain ⟨hs, hs'⟩ := h.second
  omega

/-- A date with smaller fields is an earlier day.  Comparing the fields one after the other
compares the days. -/
theorem dayNumber_lt (ha : a.Valid) (hb : b.Valid)
    (h : a.year < b.year ∨ (a.year = b.year ∧ (a.month < b.month ∨
      (a.month = b.month ∧ a.day < b.day)))) : a.dayNumber < b.dayNumber := by
  have hmem := ha.dayOfYear_mem
  have hmem' := hb.dayOfYear_mem
  rw [dayNumber_eq, dayNumber_eq]
  rcases h with hyear | ⟨hyear, hmonth | ⟨hmonth, hday⟩⟩
  · have hle := daysBeforeYear_le hyear
    omega
  · have hday := ha.day
    have hday' := hb.day
    have hm := ha.month
    have hm' := hb.month
    have hle := @daysBeforeMonth_le a.year a.month.toNat b.month.toNat (by omega) (by omega)
    rw [Int.toNat_of_nonneg (by omega)] at hle
    simp only [dayOfYear, ← hyear]
    omega
  · simp only [dayOfYear, ← hyear, ← hmonth]
    omega

/-- Lexicographic comparison of the fields. -/
theorem fields_lt_iff : a.fields < b.fields ↔
    a.year < b.year ∨ (a.year = b.year ∧ (a.month < b.month ∨ (a.month = b.month ∧
      (a.day < b.day ∨ (a.day = b.day ∧ (a.hour < b.hour ∨ (a.hour = b.hour ∧
        (a.minute < b.minute ∨ (a.minute = b.minute ∧ a.second < b.second))))))))) := by
  simp only [fields, List.cons_lt_cons_iff, List.not_lt_nil, and_false, or_false]

/-- Of two valid points in time the one with the smaller fields comes first. -/
theorem epochSeconds_lt (ha : a.Valid) (hb : b.Valid) (h : a.fields < b.fields) :
    a.epochSeconds < b.epochSeconds := by
  have htime := ha.timeOfDay_mem
  have htime' := hb.timeOfDay_mem
  obtain ⟨hh, -⟩ := ha.hour
  obtain ⟨hm, hm'⟩ := ha.minute
  obtain ⟨hs, hs'⟩ := ha.second
  obtain ⟨hmb, hmb'⟩ := hb.minute
  obtain ⟨hsb, hsb'⟩ := hb.second
  rw [fields_lt_iff] at h
  unfold epochSeconds
  by_cases hdate : a.year = b.year ∧ a.month = b.month ∧ a.day = b.day
  · -- On the same day the times of day decide.
    obtain ⟨hyear, hmonth, hday⟩ := hdate
    have hsame : a.dayNumber = b.dayNumber := by
      simp only [dayNumber, hyear, hmonth, hday]
    omega
  · have hearlier := dayNumber_lt ha hb (by omega)
    omega

/-- The order of two valid points in time is that of their fields. -/
theorem fields_lt_of_epochSeconds_lt (ha : a.Valid) (hb : b.Valid)
    (h : a.epochSeconds < b.epochSeconds) : a.fields < b.fields := by
  rcases lt_trichotomy a.fields b.fields with hlt | heq | hgt
  · exact hlt
  · simp only [fields, List.cons.injEq] at heq
    obtain ⟨hyear, hmonth, hday, hhour, hminute, hsecond, -⟩ := heq
    simp only [epochSeconds, dayNumber, hyear, hmonth, hday, hhour, hminute, hsecond,
      lt_self_iff_false] at h
  · exact absurd (epochSeconds_lt hb ha hgt) h.not_gt

/-- A valid point in time is determined by its second, so an inverse of `epochSeconds` is the
only one. -/
theorem Valid.eq_of_epochSeconds (ha : a.Valid) (hb : b.Valid)
    (h : a.epochSeconds = b.epochSeconds) : a = b := by
  have hfields : a.fields = b.fields := by
    rcases lt_trichotomy a.fields b.fields with hlt | heq | hgt
    · exact absurd h (epochSeconds_lt ha hb hlt).ne
    · exact heq
    · exact absurd h (epochSeconds_lt hb ha hgt).ne'
  obtain ⟨year, month, day, hour, minute, second⟩ := a
  simp only [fields, List.cons.injEq] at hfields
  obtain ⟨rfl, rfl, rfl, rfl, rfl, rfl, -⟩ := hfields
  rfl

end DateTime

/-! ## Counting from March -/

/-- Years that begin in March end with the leap day: the days before their beginning.  This is
the calendar that the arithmetic of eras runs on. -/
theorem daysBeforeYear_march (year : Int) :
    daysBeforeYear year + daysBeforeMonth year 3 =
      365 * year + year / 4 - year / 100 + year / 400 - 306 := by
  simp only [daysBeforeYear, daysBeforeMonth, monthLength, IsLeap]
  split_ifs <;> simp_all <;> omega

/-- The year of a day within a century that begins in March.  The first `c` centuries of
an era shift the count by `24 * c`. -/
theorem year_of_century {r c : Int} (hr : 0 ≤ r) (hc : 0 ≤ c) (hc' : c ≤ 3) (hend : r ≤ 36524)
    (hlast : r = 36524 → c = 3) {y : Int} (hy : y = (r - (24 * c + r) / 1460) / 365) :
    0 ≤ y ∧ y ≤ 99 ∧ 0 ≤ r - (365 * y + y / 4) ∧ r - (365 * y + y / 4) ≤ 365 ∧
      (r - (365 * y + y / 4) = 365 → (y + 1) % 4 = 0 ∧ (y = 99 → c = 3)) := by
  -- `q` periods of four years, and `s` days into the next one.
  obtain ⟨q, hq⟩ : ∃ q, q = r / 1461 := ⟨_, rfl⟩
  obtain ⟨s, hs⟩ : ∃ s, s = r - 1461 * q := ⟨_, rfl⟩
  obtain ⟨m, hm⟩ : ∃ m, m = (24 * c + q + s) / 1460 := ⟨_, rfl⟩
  have hdiv : (24 * c + r) / 1460 = q + m := by omega
  have hmem : 0 ≤ m ∧ m ≤ 1 := by omega
  rw [hdiv] at hy
  obtain ⟨u, hu⟩ : ∃ u, u = (s - m) / 365 := ⟨_, rfl⟩
  have hyear : y = 4 * q + u := by omega
  have hu3 : 0 ≤ u ∧ u ≤ 3 := by omega
  have hquarter : y / 4 = q := by omega
  rw [hquarter, hyear]
  refine ⟨by omega, by omega, by omega, by omega, fun hleap => ?_⟩
  -- The day 365 of a year is only reached in the last year of a period.
  have hday : s = 365 * (u + 1) := by omega
  have hcarry : m = 1 := by omega
  have hu : u = 3 := by omega
  refine ⟨by omega, fun hcentury => hlast ?_⟩
  omega

/-- The year of a day within an era of 400 years that begins in March, and the day of
that year: it has 365 days, and one more before March of a leap year. -/
theorem year_of_era {doe : Int} (hdoe : 0 ≤ doe) (hdoe' : doe < 146097) {yoe : Int}
    (hyoe : yoe = (doe - doe / 1460 + doe / 36524 - doe / 146096) / 365) :
    0 ≤ yoe ∧ yoe ≤ 399 ∧ 0 ≤ doe - (365 * yoe + yoe / 4 - yoe / 100) ∧
      doe - (365 * yoe + yoe / 4 - yoe / 100) ≤ 365 ∧
      (doe - (365 * yoe + yoe / 4 - yoe / 100) = 365 → IsLeap (yoe + 1)) := by
  -- The century, of which the last one is a day longer.
  obtain ⟨c, hc⟩ : ∃ c, c = doe / 36524 - doe / 146096 := ⟨_, rfl⟩
  have hmem : 0 ≤ c ∧ c ≤ 3 := by omega
  obtain ⟨r, hr⟩ : ∃ r, r = doe - 36524 * c := ⟨_, rfl⟩
  have hr0 : 0 ≤ r ∧ r ≤ 36524 ∧ (r = 36524 → c = 3) := by omega
  obtain ⟨y, hy⟩ : ∃ y, y = (r - (24 * c + r) / 1460) / 365 := ⟨_, rfl⟩
  have hshift : doe / 1460 = 25 * c + (24 * c + r) / 1460 := by omega
  have hyear : yoe = 100 * c + y := by omega
  obtain ⟨hy0, hy99, hday, hday', hleap⟩ :=
    year_of_century hr0.1 hmem.1 hmem.2 hr0.2.1 hr0.2.2 hy
  have hquarters : yoe / 4 = 25 * c + y / 4 := by omega
  have hcenturies : yoe / 100 = c := by omega
  rw [hquarters, hcenturies, hyear]
  refine ⟨by omega, by omega, by omega, by omega, fun hlast => ?_⟩
  obtain ⟨hfour, hcentury⟩ := hleap (by omega)
  refine ⟨by omega, ?_⟩
  by_cases hy' : y = 99
  · exact .inr (by omega)
  · exact .inl (by omega)

/-- The months from March on, five of them to 153 days: month and day of a day of the
year, and the days up to there.  January and February belong to the next year. -/
theorem month_of_year {doy : Int} (hdoy : 0 ≤ doy) (hdoy' : doy ≤ 365) (year : Int)
    (hleap : doy = 365 → IsLeap (year + 1)) {mp d : Int} (hmp : mp = (5 * doy + 2) / 153)
    (hd : d = doy - (153 * mp + 2) / 5 + 1) :
    0 ≤ mp ∧ mp ≤ 11 ∧ 1 ≤ d ∧
      (mp < 10 → d ≤ monthLength year (mp + 3) ∧
        daysBeforeMonth year (mp + 3).toNat + (d - 1) = daysBeforeMonth year 3 + doy) ∧
      (10 ≤ mp → d ≤ monthLength (year + 1) (mp - 9) ∧
        daysBeforeMonth (year + 1) (mp - 9).toNat + (d - 1) = doy - 306) := by
  have hmem : 0 ≤ mp ∧ mp ≤ 11 := by omega
  refine ⟨hmem.1, hmem.2, by omega, fun hearly => ?_, fun hlate => ?_⟩
  · obtain ⟨hmp0, -⟩ := hmem
    have hthree : daysBeforeMonth year 3 = 31 + monthLength year 2 := by
      simp [daysBeforeMonth, monthLength]
    rw [hthree]
    interval_cases mp <;> simp [monthLength, daysBeforeMonth] <;> omega
  · obtain ⟨-, hmp11⟩ := hmem
    interval_cases mp
    · simp [monthLength, daysBeforeMonth]
      omega
    · simp [monthLength, daysBeforeMonth]
      by_cases hleapYear : IsLeap (year + 1)
      · simp only [hleapYear, if_true]
        omega
      · have hshort : doy ≠ 365 := fun h => hleapYear (hleap h)
        simp only [hleapYear, if_false]
        omega

/-- January and February are the last months of a year that begins in March. -/
theorem date_of_march_year {y doy mp d month year : Int} (hdoy0 : 0 ≤ doy) (hdoy365 : doy ≤ 365)
    (hleap : doy = 365 → IsLeap (y + 1)) (hmp : mp = (5 * doy + 2) / 153)
    (hd : d = doy - (153 * mp + 2) / 5 + 1)
    (hmonth : month = if mp < 10 then mp + 3 else mp - 9)
    (hyear : year = if month ≤ 2 then y + 1 else y) :
    1 ≤ month ∧ month ≤ 12 ∧ 1 ≤ d ∧ d ≤ monthLength year month ∧
      daysBeforeYear year + daysBeforeMonth year month.toNat + (d - 1) =
        365 * y + y / 4 - y / 100 + y / 400 + doy - 306 := by
  obtain ⟨hmp0, hmp11, hd1, hearly, hlate⟩ := month_of_year hdoy0 hdoy365 y hleap hmp hd
  have hmarch := daysBeforeYear_march y
  by_cases hspring : mp < 10
  · obtain ⟨hday, hdays⟩ := hearly hspring
    rw [if_pos hspring] at hmonth
    rw [if_neg (by omega)] at hyear
    rw [hmonth, hyear]
    exact ⟨by omega, by omega, hd1, hday, by omega⟩
  · obtain ⟨hday, hdays⟩ := hlate (by omega)
    rw [if_neg hspring] at hmonth
    rw [if_pos (by omega)] at hyear
    have hnext : daysBeforeYear (y + 1) = 365 * y + y / 4 - y / 100 + y / 400 := by
      rw [daysBeforeYear, Int.add_sub_cancel]
    rw [hmonth, hyear]
    exact ⟨by omega, by omega, hd1, hday, by omega⟩

end Gregorian
