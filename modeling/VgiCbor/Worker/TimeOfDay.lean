import VgiCbor.Worker.IntegerTargets
import VgiCbor.Worker.ValueIn

/-!
# Times of day

A time of day is written as a count of microseconds and read back into the count of its
column.  A nanosecond column loses what is below a microsecond on the way out, and a
second or millisecond column truncates what it is given on the way in.
-/

namespace VgiCbor.ValueOut

open MachineInt ValueIn Outcome

variable {rt : Runtime} {path : String}

def timeType : TimeUnit → DataType
  | .second => .time32 .second
  | .millisecond => .time32 .millisecond
  | .microsecond => .time64 .microsecond
  | .nanosecond => .time64 .nanosecond

def dayCounts (unit : TimeUnit) : Int := 86400 * 10 ^ unitDigits unit

/-- The microseconds in one count.  A nanosecond stands for none of its own: any number of
microseconds is whole in nanoseconds. -/
def microsPer : TimeUnit → Int
  | .second => 1000000
  | .millisecond => 1000
  | .microsecond => 1
  | .nanosecond => 1

/-- The microseconds a column of the unit accepts: those whose count fits its integer.  A
coarse unit truncates first, so its bounds are a count wider on either side. -/
def Accepts : TimeUnit → Int → Prop
  | .second, us => -2147483649 * 1000000 < us ∧ us < 2147483648 * 1000000
  | .millisecond, us => -2147483649 * 1000 < us ∧ us < 2147483648 * 1000
  | .microsecond, us => -0x8000000000000000 ≤ us ∧ us < 0x8000000000000000
  | .nanosecond, us => -9223372036854775 ≤ us ∧ us < 9223372036854776

/-- The count that a number of microseconds is read as.  Coarser units truncate towards zero. -/
def timeCount : TimeUnit → Int → Int
  | .second, us => us.tdiv 1000000
  | .millisecond, us => us.tdiv 1000
  | .microsecond, us => us
  | .nanosecond, us => us * 1000

/-! ## Reading -/

/-- What a time-of-day column makes of a count of microseconds: the count of its unit if that
has room, else no cell. -/
theorem leafCell_time (unit : TimeUnit) (tags : List UInt64) (n : Integer) :
    (Accepts unit n.val → ∃ c : Integer, c.val = timeCount unit n.val ∧
      leafCell rt (timeType unit) (tagged tags (.integer n)) = some (.int c)) ∧
    (¬ Accepts unit n.val →
      leafCell rt (timeType unit) (tagged tags (.integer n)) = none) := by
  have hread := asI128_tagged_integer tags n
  -- Each unit is its native conversion behind the same reading of the integer.
  cases unit with
  | second =>
      simp only [timeType, leafCell, hread, Option.bind_some, Accepts, timeCount]
      constructor
      · intro h
        obtain ⟨c, hc, hnative⟩ :=
          time32Native_accepted (k := 1000000) (u := n.widen) (by decide) h
        exact ⟨c, hc, by rw [hnative, Option.map_some]⟩
      · intro h
        rw [time32Native_refused (k := 1000000) (u := n.widen) (by decide) h, Option.map_none]
  | millisecond =>
      simp only [timeType, leafCell, hread, Option.bind_some, Accepts, timeCount]
      constructor
      · intro h
        obtain ⟨c, hc, hnative⟩ :=
          time32Native_accepted (k := 1000) (u := n.widen) (by decide) h
        exact ⟨c, hc, by rw [hnative, Option.map_some]⟩
      · intro h
        rw [time32Native_refused (k := 1000) (u := n.widen) (by decide) h, Option.map_none]
  | microsecond =>
      simp only [timeType, leafCell, hread, Option.bind_some, Accepts, timeCount]
      constructor
      · intro h
        obtain ⟨c, hc, hnative⟩ :=
          time64Native_accepted (k := 1) (u := n.widen) h (by simpa using h)
        exact ⟨c, by simpa using hc, by rw [hnative, Option.map_some]⟩
      · intro h
        rw [time64Native_refused (k := 1) (u := n.widen) fun hin => h hin.1, Option.map_none]
  | nanosecond =>
      simp only [timeType, leafCell, hread, Option.bind_some, Accepts, timeCount]
      constructor
      · rintro ⟨hlo, hhi⟩
        obtain ⟨c, hc, hnative⟩ := time64Native_accepted (k := 1000) (u := n.widen)
          (by rw [Ranged.widen_val]; omega) (by rw [Ranged.widen_val]; push_cast; omega)
        exact ⟨c, hc, by rw [hnative, Option.map_some]⟩
      · intro h
        rw [time64Native_refused (k := 1000) (u := n.widen), Option.map_none]
        rintro ⟨-, hcount⟩
        rw [Ranged.widen_val] at hcount
        push_cast at hcount
        exact h ⟨by omega, by omega⟩

/-- A time-of-day column of one integer. -/
theorem buildColumn_time (unit : TimeUnit) (tags : List UInt64) (n : Integer) :
    (Accepts unit n.val → ∃ column c,
      buildColumn rt (timeType unit) path [tagged tags (.integer n)] = .ok column ∧
        column.cells = [.int c] ∧ c.val = timeCount unit n.val) ∧
    (¬ Accepts unit n.val →
      ∃ e, buildColumn rt (timeType unit) path [tagged tags (.integer n)] = .error e) := by
  have hbuild : Yields ((buildColumn rt (timeType unit) path [tagged tags (.integer n)]).map
      Arr.cells) _ :=
    buildColumn_scalar (by cases unit <;> rfl) (by cases unit <;> rfl) (by cases unit <;> rfl)
      (by cases unit <;> rfl) (isNull_tagged_integer tags n)
  obtain ⟨haccept, hrefuse⟩ := @leafCell_time rt unit tags n
  constructor
  · intro h
    obtain ⟨c, hc, hcell⟩ := haccept h
    rcases hbuild.of_map with ⟨column, hrun, hcells⟩ | ⟨e, -, -, hnone⟩
    · rw [hcell] at hcells
      exact ⟨column, c, hrun, (Option.some.inj hcells).symm, hc⟩
    · rw [hcell] at hnone
      cases hnone
  · intro h
    rcases hbuild.of_map with ⟨column, -, hcells⟩ | ⟨e, hrun, -, -⟩
    · rw [hrefuse h] at hcells
      cases hcells
    · exact ⟨e, hrun⟩

/-! ## Writing -/

/-- The microseconds that a count is written as.  Nanoseconds lose their last three digits
here. -/
def writtenMicros : TimeUnit → Int → Int
  | .second, c => c * 1000000
  | .millisecond, c => c * 1000
  | .microsecond, c => c
  | .nanosecond, c => c.tdiv 1000

/-- A time of day below 24 hours is written as its microseconds, which are accepted by the
same column. -/
theorem valueAt_time (unit : TimeUnit) {c : Integer} (hlo : 0 ≤ c.val)
    (hhi : c.val < dayCounts unit) :
    ∃ n : Integer, n.val = writtenMicros unit c.val ∧ Accepts unit n.val ∧
      valueAt rt (timeType unit) (.int c) = .ok (.integer n) := by
  cases unit with
  | second =>
      simp only [dayCounts, unitDigits] at hhi
      have hwrap : (I64.wrap (c.val * (1000000 : Nat))).val = c.val * 1000000 :=
        I64.wrap_val_of_mem (by push_cast; omega) (by push_cast; omega)
      refine ⟨Integer.ofI64 (I64.wrap (c.val * (1000000 : Nat))), hwrap, ?_, rfl⟩
      rw [Integer.ofI64_val, hwrap, Accepts]
      omega
  | millisecond =>
      simp only [dayCounts, unitDigits] at hhi
      have hwrap : (I64.wrap (c.val * (1000 : Nat))).val = c.val * 1000 :=
        I64.wrap_val_of_mem (by push_cast; omega) (by push_cast; omega)
      refine ⟨Integer.ofI64 (I64.wrap (c.val * (1000 : Nat))), hwrap, ?_, rfl⟩
      rw [Integer.ofI64_val, hwrap, Accepts]
      omega
  | microsecond =>
      simp only [dayCounts, unitDigits] at hhi
      refine ⟨c, rfl, ?_, rfl⟩
      rw [Accepts]
      omega
  | nanosecond =>
      simp only [dayCounts, unitDigits] at hhi
      have hquot : (c.tdiv 1000).val = c.val / 1000 := by
        show c.val.tdiv (1000 : Nat) = _
        rw [Int.tdiv_eq_ediv_of_nonneg hlo]
        rfl
      refine ⟨c.tdiv 1000, rfl, ?_, rfl⟩
      rw [hquot, Accepts]
      omega

/-! ## Exactness -/

/-- The stored count is what is read back from what it is written as. -/
def CountSurvives (rt : Runtime) (path : String) (unit : TimeUnit) (c : Integer) : Prop :=
  ∃ v column, valueAt rt (timeType unit) (.int c) = .ok v ∧
    buildColumn rt (timeType unit) path [v] = .ok column ∧ column.cells = [.int c]

/-- An accepted count of microseconds becomes a cell of exactly as many, both sides in
`10^(-6)` and `10^(-digits)` seconds. -/
def AcceptedExactly (rt : Runtime) (path : String) (unit : TimeUnit) (v : Value) (n : Integer) :
    Prop :=
  ∀ column, buildColumn rt (timeType unit) path [v] = .ok column →
    ∃ c : Integer, column.cells = [.int c] ∧ c.val * 10 ^ 6 = n.val * 10 ^ unitDigits unit

/-- What a count is read back as: itself, except for nanoseconds that are no whole
microseconds. -/
theorem timeCount_writtenMicros (unit : TimeUnit) {c : Int} (hlo : 0 ≤ c) :
    timeCount unit (writtenMicros unit c) = c ↔ (unit = .nanosecond → (1000 : Int) ∣ c) := by
  cases unit with
  | second => simp [timeCount, writtenMicros]
  | millisecond => simp [timeCount, writtenMicros]
  | microsecond => simp [timeCount, writtenMicros]
  | nanosecond =>
      simp only [timeCount, writtenMicros, true_imp_iff]
      rw [Int.tdiv_eq_ediv_of_nonneg hlo]
      omega

/-- The count of a number of microseconds is that number exactly if it is whole.  Otherwise
the truncation shows. -/
theorem timeCount_exact_iff (unit : TimeUnit) (n : Int) :
    timeCount unit n * 10 ^ 6 = n * 10 ^ unitDigits unit ↔ microsPer unit ∣ n := by
  cases unit with
  | second =>
      simp only [timeCount, unitDigits, microsPer]
      rw [show (10 : Int) ^ 6 = 1000000 by norm_num, pow_zero, mul_one]
      exact ⟨fun h => Dvd.intro_left _ h, Int.tdiv_mul_cancel⟩
  | millisecond =>
      simp only [timeCount, unitDigits, microsPer]
      constructor
      · intro h
        exact Dvd.intro_left (n.tdiv 1000) (by omega)
      · intro h
        have hmul := Int.tdiv_mul_cancel h
        omega
  | microsecond => simp [timeCount, unitDigits, microsPer]
  | nanosecond =>
      simp only [timeCount, unitDigits, microsPer, one_dvd, iff_true]
      omega

/-- Where times of day are exact: a stored count below 24 hours survives unless it is in
nanoseconds and no whole number of microseconds; an accepted count of microseconds is
kept unless it is no whole number of the column's units. -/
theorem time_of_day_exact_iff (rt : Runtime) (path : String) :
    (∀ (unit : TimeUnit) (c : Integer), 0 ≤ c.val → c.val < dayCounts unit →
      (CountSurvives rt path unit c ↔ (unit = .nanosecond → (1000 : Int) ∣ c.val))) ∧
    (∀ (unit : TimeUnit) (tags : List UInt64) (n : Integer),
      AcceptedExactly rt path unit (tagged tags (.integer n)) n ↔
        (Accepts unit n.val → microsPer unit ∣ n.val)) := by
  constructor
  · intro unit c hlo hhi
    obtain ⟨n, hn, haccepts, hwrite⟩ := @valueAt_time rt unit _ hlo hhi
    obtain ⟨column, d, hbuild, hcells, hd⟩ :=
      (@buildColumn_time rt path unit [] n).1 haccepts
    -- What is read back is the written count at the column's unit again.
    rw [hn] at hd
    rw [← timeCount_writtenMicros unit hlo, ← hd]
    constructor
    · rintro ⟨v, column', hwrite', hbuild', hcells'⟩
      rw [hwrite] at hwrite'
      cases hwrite'
      rw [show tagged [] (.integer n) = Value.integer n from rfl, hbuild'] at hbuild
      cases hbuild
      rw [hcells] at hcells'
      cases hcells'
      rfl
    · intro heq
      refine ⟨.integer n, column, hwrite, hbuild, ?_⟩
      rw [hcells, Ranged.ext_val heq]
  · intro unit tags n
    obtain ⟨haccept, hrefuse⟩ := @buildColumn_time rt path unit tags n
    constructor
    · intro hexact h
      obtain ⟨column, c, hbuild, hcells, hc⟩ := haccept h
      obtain ⟨c', hcells', heq⟩ := hexact column hbuild
      rw [hcells] at hcells'
      cases hcells'
      rwa [hc, timeCount_exact_iff] at heq
    · intro hwhole column hbuild
      by_cases h : Accepts unit n.val
      · obtain ⟨column', c, hbuild', hcells, hc⟩ := haccept h
        rw [hbuild] at hbuild'
        cases hbuild'
        exact ⟨c, hcells, by rw [hc, timeCount_exact_iff]; exact hwhole h⟩
      · obtain ⟨e, herror⟩ := hrefuse h
        rw [hbuild] at herror
        cases herror

/-- One second past midnight survives in a second column, whose count it is. -/
theorem time_of_day_exact_iff_second :
    CountSurvives .bare "t" .second ⟨1, by decide, by decide⟩ :=
  ((time_of_day_exact_iff .bare "t").1 .second _ (by decide) (by decide)).2 fun h => by cases h

/-- A nanosecond past midnight is written as midnight; one and a half seconds are read
as one by a second column. -/
theorem time_of_day_truncated :
    ¬ CountSurvives .bare "t" .nanosecond ⟨1, by decide, by decide⟩ ∧
      ¬ AcceptedExactly .bare "t" .second (.integer ⟨1500000, by decide, by decide⟩)
        ⟨1500000, by decide, by decide⟩ := by
  constructor
  · rintro ⟨v, column, hwrite, hbuild, hcells⟩
    cases hwrite
    cases hbuild
    have hcount := Cell.int.inj (List.cons.inj hcells).1
    exact absurd (congrArg Ranged.val hcount) (by decide)
  · intro h
    obtain ⟨c, hcells, heq⟩ := h _ rfl
    cases hcells
    exact absurd heq (by decide)

end VgiCbor.ValueOut
