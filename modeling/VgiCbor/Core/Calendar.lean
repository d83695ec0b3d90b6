import VgiCbor.Lib.Gregorian
import VgiCbor.Lib.MachineInt

/-!
# The calendar of `rfc3339`

The date and time of day of a count of seconds, by one chain of divisions.  The chain is
run over any 64-bit arithmetic: `tryFrom` stops at an overflow, `I64.wrap` goes on with
the wrapped result.  For every count of seconds nothing overflows, and the result is the
Gregorian date and time of day of that second (`calendar_correct`).
-/

namespace VgiCbor.Msgpack

open MachineInt Gregorian

section Arithmetic

variable {m : Type → Type} [Monad m] (i64 : Int → m I64)

/-- `(rem / 3600, (rem % 3600) / 60, rem % 60)` -/
def timeOfDay (rem : I64) : m (I64 × I64 × I64) := do
  let h ← i64 (rem.val.tdiv 3600)
  let hourRem ← i64 (rem.val.tmod 3600)
  let mi ← i64 (hourRem.val.tdiv 60)
  let s ← i64 (rem.val.tmod 60)
  return (h, mi, s)

/-- `(doe - doe / 1460 + doe / 36524 - doe / 146_096) / 365` -/
def yearOfEra (doe : I64) : m I64 := do
  let quads ← i64 (doe.val.tdiv 1460)
  let centuries ← i64 (doe.val.tdiv 36524)
  let eras ← i64 (doe.val.tdiv 146096)
  let left₁ ← i64 (doe.val - quads.val)
  let left₂ ← i64 (left₁.val + centuries.val)
  let left₃ ← i64 (left₂.val - eras.val)
  i64 (left₃.val.tdiv 365)

/-- `doe - (365 * yoe + yoe / 4 - yoe / 100)` -/
def dayOfYear (doe yoe : I64) : m I64 := do
  let yearDays ← i64 (365 * yoe.val)
  let quads ← i64 (yoe.val.tdiv 4)
  let before₁ ← i64 (yearDays.val + quads.val)
  let centuries ← i64 (yoe.val.tdiv 100)
  let before₂ ← i64 (before₁.val - centuries.val)
  i64 (doe.val - before₂.val)

/-- `if mp < 10 { mp + 3 } else { mp - 9 }` -/
def monthOf (mp : I64) : m I64 := if mp.val < 10 then i64 (mp.val + 3) else i64 (mp.val - 9)

/-- `if m <= 2 { y + 1 } else { y }` -/
def yearOf (month y : I64) : m I64 := if month.val ≤ 2 then i64 (y.val + 1) else pure y

/-- `mp = (5 * doy + 2) / 153`, `d = doy - (153 * mp + 2) / 5 + 1`, and the month that
`mp` counts from March. -/
def monthAndDay (doy : I64) : m (I64 × I64) := do
  let days₁ ← i64 (5 * doy.val)
  let days₂ ← i64 (days₁.val + 2)
  let mp ← i64 (days₂.val.tdiv 153)
  let start₁ ← i64 (153 * mp.val)
  let start₂ ← i64 (start₁.val + 2)
  let start ← i64 (start₂.val.tdiv 5)
  let index ← i64 (doy.val - start.val)
  let d ← i64 (index.val + 1)
  let month ← monthOf i64 mp
  return (month, d)

/-- The fields that `rfc3339` prints for a count of seconds, by the arithmetic of the source.
The arithmetic is a parameter, so that the same text stands for the wrapping and the checked
build. -/
def civil (secs : I64) : m DateTime := do
  let days ← i64 (secs.val / 86400)
  let rem ← i64 (secs.val % 86400)
  let (h, mi, s) ← timeOfDay i64 rem
  let z ← i64 (days.val + 719468)
  let era ← i64 (z.val / 146097)
  let doe ← i64 (z.val % 146097)
  let yoe ← yearOfEra i64 doe
  let eraYears ← i64 (era.val * 400)
  let y ← i64 (yoe.val + eraYears.val)
  let doy ← dayOfYear i64 doe yoe
  let (month, d) ← monthAndDay i64 doy
  let year ← yearOf i64 month y
  return ⟨year.val, month.val, d.val, h.val, mi.val, s.val⟩

end Arithmetic

/-- The fields as they are printed. -/
def calendar (secs : I64) : DateTime := Id.run (civil (fun n => pure (I64.wrap n)) secs)

/-! ## Arithmetic without overflow -/

section Exact

variable {m : Type → Type} [Monad m] {i64 : Int → m I64}

/-- The arithmetic passes on what is within the range.  Nothing is said of the other results,
so wrapping and checked arithmetic both are exact. -/
def Exact (i64 : Int → m I64) : Prop := ∀ x : I64, i64 x.val = pure x

theorem Exact.exists_pure (hexact : Exact i64) {n : Int} (hge : -0x8000000000000000 ≤ n)
    (hlt : n < 0x8000000000000000) : ∃ x : I64, i64 n = pure x ∧ x.val = n :=
  ⟨⟨n, hge, hlt⟩, hexact ⟨n, hge, hlt⟩, rfl⟩

/-- Truncating division of a non-negative number. -/
theorem Exact.exists_tdiv (hexact : Exact i64) {x : I64} (hx : 0 ≤ x.val) (k : Nat) :
    ∃ q : I64, i64 (x.val.tdiv k) = pure q ∧ q.val = x.val / k := by
  obtain ⟨hge, hlt⟩ := tdiv_mem k ⟨x.ge, x.lt⟩
  obtain ⟨q, hq, hval⟩ := hexact.exists_pure hge hlt
  exact ⟨q, hq, hval.trans (Int.tdiv_eq_ediv_of_nonneg hx)⟩

theorem Exact.exists_tmod (hexact : Exact i64) {x : I64} (hx : 0 ≤ x.val) {k : Nat}
    (hk : 0 < k ∧ k ≤ 3600) : ∃ r : I64, i64 (x.val.tmod k) = pure r ∧ r.val = x.val % k := by
  have hmod : x.val.tmod k = x.val % k := Int.tmod_eq_emod_of_nonneg hx
  have hnonneg := Int.emod_nonneg x.val (show (k : Int) ≠ 0 by omega)
  have hlt := Int.emod_lt_of_pos x.val (show (0 : Int) < k by omega)
  rw [hmod]
  exact hexact.exists_pure (by omega) (by omega)

variable [LawfulMonad m]

theorem timeOfDay_spec (hexact : Exact i64) {rem : I64} (hrem : 0 ≤ rem.val) :
    ∃ h mi s : I64, timeOfDay i64 rem = pure (h, mi, s) ∧ h.val = rem.val / 3600 ∧
      mi.val = rem.val % 3600 / 60 ∧ s.val = rem.val % 60 := by
  obtain ⟨h, hh, hhVal⟩ := hexact.exists_tdiv hrem 3600
  obtain ⟨hourRem, hhourRem, hhourRemVal⟩ := hexact.exists_tmod hrem (show 0 < 3600 ∧ 3600 ≤ 3600 by decide)
  obtain ⟨mi, hmi, hmiVal⟩ := hexact.exists_tdiv (x := hourRem) (by omega) 60
  obtain ⟨s, hs, hsVal⟩ := hexact.exists_tmod hrem (show 0 < 60 ∧ 60 ≤ 3600 by decide)
  refine ⟨h, mi, s, ?_, hhVal, by rw [hmiVal, hhourRemVal]; rfl, hsVal⟩
  push_cast at hh hhourRem hmi hs
  rw [timeOfDay, hh, pure_bind, hhourRem, pure_bind, hmi, pure_bind, hs, pure_bind]

theorem yearOfEra_spec (hexact : Exact i64) {doe : I64} (hdoe : 0 ≤ doe.val)
    (hdoe' : doe.val < 146097) :
    ∃ yoe : I64, yearOfEra i64 doe = pure yoe ∧
      yoe.val = (doe.val - doe.val / 1460 + doe.val / 36524 - doe.val / 146096) / 365 := by
  obtain ⟨quads, hquads, hquadsVal⟩ := hexact.exists_tdiv hdoe 1460
  obtain ⟨centuries, hcenturies, hcenturiesVal⟩ := hexact.exists_tdiv hdoe 36524
  obtain ⟨eras, heras, herasVal⟩ := hexact.exists_tdiv hdoe 146096
  obtain ⟨left₁, hleft₁, hleft₁Val⟩ :=
    hexact.exists_pure (n := doe.val - quads.val) (by omega) (by omega)
  obtain ⟨left₂, hleft₂, hleft₂Val⟩ :=
    hexact.exists_pure (n := left₁.val + centuries.val) (by omega) (by omega)
  obtain ⟨left₃, hleft₃, hleft₃Val⟩ :=
    hexact.exists_pure (n := left₂.val - eras.val) (by omega) (by omega)
  obtain ⟨yoe, hyoe, hyoeVal⟩ := hexact.exists_tdiv (x := left₃) (by omega) 365
  refine ⟨yoe, ?_, ?_⟩
  · push_cast at hquads hcenturies heras hyoe
    rw [yearOfEra, hquads, pure_bind, hcenturies, pure_bind, heras, pure_bind, hleft₁, pure_bind,
      hleft₂, pure_bind, hleft₃, pure_bind, hyoe]
  · rw [hyoeVal, hleft₃Val, hleft₂Val, hleft₁Val, hquadsVal, hcenturiesVal, herasVal]
    rfl

theorem dayOfYear_spec (hexact : Exact i64) {doe yoe : I64} (hdoe : 0 ≤ doe.val)
    (hdoe' : doe.val < 146097) (hyoe : 0 ≤ yoe.val) (hyoe' : yoe.val ≤ 399) :
    ∃ doy : I64, dayOfYear i64 doe yoe = pure doy ∧
      doy.val = doe.val - (365 * yoe.val + yoe.val / 4 - yoe.val / 100) := by
  obtain ⟨yearDays, hyearDays, hyearDaysVal⟩ :=
    hexact.exists_pure (n := 365 * yoe.val) (by omega) (by omega)
  obtain ⟨quads, hquads, hquadsVal⟩ := hexact.exists_tdiv hyoe 4
  obtain ⟨before₁, hbefore₁, hbefore₁Val⟩ :=
    hexact.exists_pure (n := yearDays.val + quads.val) (by omega) (by omega)
  obtain ⟨centuries, hcenturies, hcenturiesVal⟩ := hexact.exists_tdiv hyoe 100
  obtain ⟨before₂, hbefore₂, hbefore₂Val⟩ :=
    hexact.exists_pure (n := before₁.val - centuries.val) (by omega) (by omega)
  obtain ⟨doy, hdoy, hdoyVal⟩ :=
    hexact.exists_pure (n := doe.val - before₂.val) (by omega) (by omega)
  refine ⟨doy, ?_, by omega⟩
  push_cast at hquads hcenturies
  rw [dayOfYear, hyearDays, pure_bind, hquads, pure_bind, hbefore₁, pure_bind, hcenturies,
    pure_bind, hbefore₂, pure_bind, hdoy]

theorem monthAndDay_spec (hexact : Exact i64) {doy : I64} (hdoy : 0 ≤ doy.val)
    (hdoy' : doy.val ≤ 365) :
    ∃ month d : I64, monthAndDay i64 doy = pure (month, d) ∧ ∃ mp : Int,
      mp = (5 * doy.val + 2) / 153 ∧ d.val = doy.val - (153 * mp + 2) / 5 + 1 ∧
        month.val = if mp < 10 then mp + 3 else mp - 9 := by
  obtain ⟨days₁, hdays₁, hdays₁Val⟩ :=
    hexact.exists_pure (n := 5 * doy.val) (by omega) (by omega)
  obtain ⟨days₂, hdays₂, hdays₂Val⟩ :=
    hexact.exists_pure (n := days₁.val + 2) (by omega) (by omega)
  obtain ⟨mp, hmp, hmpVal⟩ := hexact.exists_tdiv (x := days₂) (by omega) 153
  obtain ⟨start₁, hstart₁, hstart₁Val⟩ :=
    hexact.exists_pure (n := 153 * mp.val) (by omega) (by omega)
  obtain ⟨start₂, hstart₂, hstart₂Val⟩ :=
    hexact.exists_pure (n := start₁.val + 2) (by omega) (by omega)
  obtain ⟨start, hstart, hstartVal⟩ := hexact.exists_tdiv (x := start₂) (by omega) 5
  obtain ⟨index, hindex, hindexVal⟩ :=
    hexact.exists_pure (n := doy.val - start.val) (by omega) (by omega)
  obtain ⟨d, hd, hdVal⟩ := hexact.exists_pure (n := index.val + 1) (by omega) (by omega)
  obtain ⟨month, hmonth, hmonthVal⟩ : ∃ month : I64,
      monthOf i64 mp = pure month ∧
        month.val = if mp.val < 10 then mp.val + 3 else mp.val - 9 := by
    unfold monthOf
    split_ifs
    · exact hexact.exists_pure (by omega) (by omega)
    · exact hexact.exists_pure (by omega) (by omega)
  refine ⟨month, d, ?_, mp.val, by omega, by omega, hmonthVal⟩
  push_cast at hmp hstart
  rw [monthAndDay, hdays₁, pure_bind, hdays₂, pure_bind, hmp, pure_bind, hstart₁, pure_bind,
    hstart₂, pure_bind, hstart, pure_bind, hindex, pure_bind, hd, pure_bind, hmonth, pure_bind]

/-- Whatever the arithmetic does on overflow, the fields are those of the second: no
intermediate result leaves the 64-bit range. -/
theorem civil_spec (hexact : Exact i64) (secs : I64) :
    ∃ t : DateTime, civil i64 secs = pure t ∧ t.Valid ∧ t.epochSeconds = secs.val := by
  have hge := secs.ge
  have hlt := secs.lt
  obtain ⟨days, hdays, hdaysVal⟩ :=
    hexact.exists_pure (n := secs.val / 86400) (by omega) (by omega)
  obtain ⟨rem, hrem, hremVal⟩ :=
    hexact.exists_pure (n := secs.val % 86400) (by omega) (by omega)
  obtain ⟨h, mi, s, htime, hhVal, hmiVal, hsVal⟩ := timeOfDay_spec hexact (show 0 ≤ rem.val by omega)
  obtain ⟨z, hz, hzVal⟩ := hexact.exists_pure (n := days.val + 719468) (by omega) (by omega)
  obtain ⟨era, hera, heraVal⟩ := hexact.exists_pure (n := z.val / 146097) (by omega) (by omega)
  obtain ⟨doe, hdoe, hdoeVal⟩ := hexact.exists_pure (n := z.val % 146097) (by omega) (by omega)
  obtain ⟨yoe, hyoe, hyoeVal⟩ := yearOfEra_spec hexact (show 0 ≤ doe.val by omega) (by omega)
  obtain ⟨hyoe0, hyoe399, hdoy0, hdoy365, hleap⟩ := year_of_era (by omega) (by omega) hyoeVal
  obtain ⟨eraYears, heraYears, heraYearsVal⟩ :=
    hexact.exists_pure (n := era.val * 400) (by omega) (by omega)
  obtain ⟨y, hy, hyVal⟩ :=
    hexact.exists_pure (n := yoe.val + eraYears.val) (by omega) (by omega)
  obtain ⟨doy, hdoy, hdoyVal⟩ :=
    dayOfYear_spec hexact (show 0 ≤ doe.val by omega) (by omega) hyoe0 hyoe399
  obtain ⟨month, d, hmonthDay, mp, hmp, hd, hmonthVal⟩ :=
    monthAndDay_spec hexact (show 0 ≤ doy.val by omega) (by omega)
  obtain ⟨year, hyear, hyearVal⟩ : ∃ year : I64,
      yearOf i64 month y = pure year ∧
        year.val = if month.val ≤ 2 then y.val + 1 else y.val := by
    unfold yearOf
    split_ifs
    · exact hexact.exists_pure (by omega) (by omega)
    · exact ⟨y, rfl, rfl⟩
  -- Adding eras does not change which years are leap years.
  have hleapYear : doy.val = 365 → IsLeap (y.val + 1) := by
    intro hlast
    obtain ⟨hfour, hcentury⟩ := hleap (by omega)
    exact ⟨by omega, by omega⟩
  obtain ⟨hmonth1, hmonth12, hd1, hday, hcount⟩ :=
    date_of_march_year (by omega) (by omega) hleapYear hmp hd hmonthVal hyearVal
  refine ⟨⟨year.val, month.val, d.val, h.val, mi.val, s.val⟩, ?_, ?_, ?_⟩
  · simp only [civil, hdays, hrem, htime, hz, hera, hdoe, hyoe, heraYears, hy, hdoy, hmonthDay,
      hyear, pure_bind]
  · exact ⟨⟨hmonth1, hmonth12⟩, ⟨hd1, hday⟩, ⟨by show 0 ≤ h.val; omega, by show h.val < 24; omega⟩,
      ⟨by show 0 ≤ mi.val; omega, by show mi.val < 60; omega⟩,
      ⟨by show 0 ≤ s.val; omega, by show s.val < 60; omega⟩⟩
  · have hepoch : daysBeforeYear 1970 = 719162 := by decide
    have hnumber : DateTime.dayNumber ⟨year.val, month.val, d.val, h.val, mi.val, s.val⟩ =
        days.val := by
      rw [DateTime.dayNumber, hepoch]
      have hyoe4 : y.val / 4 = 100 * era.val + yoe.val / 4 := by omega
      have hyoe100 : y.val / 100 = 4 * era.val + yoe.val / 100 := by omega
      have hyoe400 : y.val / 400 = era.val := by omega
      show daysBeforeYear year.val - 719162 + daysBeforeMonth year.val month.val.toNat +
        (d.val - 1) = days.val
      omega
    rw [DateTime.epochSeconds, hnumber]
    show 86400 * days.val + 3600 * h.val + 60 * mi.val + s.val = secs.val
    omega

end Exact

/-! ## The printed fields -/

theorem wrap_exact : @Exact Id _ fun n => pure (I64.wrap n) := fun x =>
  congrArg pure (Ranged.ext_val (I64.wrap_val_of_mem x.ge x.lt))

theorem calendar_spec (secs : I64) :
    (calendar secs).Valid ∧ (calendar secs).epochSeconds = secs.val := by
  obtain ⟨t, hrun, hvalid, hsecs⟩ := civil_spec wrap_exact secs
  have hcalendar : calendar secs = t := hrun
  rw [hcalendar]
  exact ⟨hvalid, hsecs⟩

/-- Without wrapping, nothing overflows and the same fields come out.  The checked build
therefore never panics here. -/
theorem civil_checked (secs : I64) :
    civil (Ranged.tryFrom _ _ : Int → Option I64) secs = some (calendar secs) := by
  have hexact : Exact (Ranged.tryFrom _ _ : Int → Option I64) := Ranged.tryFrom_val
  obtain ⟨t, hrun, hvalid, hsecs⟩ := civil_spec hexact secs
  obtain ⟨hvalid', hsecs'⟩ := calendar_spec secs
  have hsame : t = calendar secs := hvalid.eq_of_epochSeconds hvalid' (hsecs.trans hsecs'.symm)
  rw [hrun, hsame]
  rfl

/-- For every 64-bit count of seconds no operation overflows, and the printed fields are a
valid date and time of day, are that second, and grow with the seconds. -/
theorem calendar_correct (secs : I64) :
    civil (Ranged.tryFrom _ _ : Int → Option I64) secs = some (calendar secs) ∧
      (calendar secs).Valid ∧ (calendar secs).epochSeconds = secs.val ∧
      ∀ later : I64, secs.val < later.val → (calendar secs).fields < (calendar later).fields := by
  obtain ⟨hvalid, hsecs⟩ := calendar_spec secs
  refine ⟨civil_checked secs, hvalid, hsecs, fun later hlater => ?_⟩
  obtain ⟨hvalid', hsecs'⟩ := calendar_spec later
  exact DateTime.fields_lt_of_epochSeconds_lt hvalid hvalid' (by omega)

/-- The last second of a leap day, and the next. -/
theorem calendar_correct_leap_day :
    (calendar (I64.wrap 951868799)).fields < (calendar (I64.wrap 951868800)).fields :=
  (calendar_correct (I64.wrap 951868799)).2.2.2 (I64.wrap 951868800) (by decide)

example : calendar (I64.wrap 951782400) = ⟨2000, 2, 29, 0, 0, 0⟩ := by decide

example : calendar (I64.wrap (-1)) = ⟨1969, 12, 31, 23, 59, 59⟩ := by decide

end VgiCbor.Msgpack
