import VgiCbor.Worker.ExactScaling
import VgiCbor.Worker.TimeOfDay

/-!
# The domains of DECIMAL and TIME

The builders of decimal and time columns check that a value fits the integer that
stores it.  Nothing checks it against the type: a decimal column takes numbers with more
digits than its precision, and a time column takes negative times and whole days.
-/

namespace VgiCbor.ValueOut

open MachineInt Binary64 ValueIn Outcome

variable {rt : Runtime} {path : String}

/-- A column stays within its domain: when it is built every cell is null or in the
domain, and a value outside it is an error on the column. -/
def CellsWithin (rt : Runtime) (path : String) (dt : DataType) (inDomain : Cell → Prop)
    (outside : Value → Prop) (values : List Value) : Prop :=
  (∀ column, buildColumn rt dt path values = .ok column →
    ∀ c ∈ column.cells, c = .null ∨ inDomain c) ∧
  ((∃ v ∈ values, outside v) →
    ∃ e, buildColumn rt dt path values = .error e ∧ NamesColumn path e)

/-- A scalar column that refuses nothing for its domain's sake stays within it exactly
when it is refused for the sake of another value, or no value is outside. -/
theorem cellsWithin_iff {dt : DataType} (hscalar : dt.isNested = false)
    (hsupported : supported dt = true) (htype : dt.isNullType = false)
    (hmax : dt.maxOffset = none) {inDomain : Cell → Prop} {outside : Value → Prop}
    {values : List Value}
    (hinside : ∀ v ∈ values, ∀ c, leafCell rt dt v = some c → ¬ outside v → inDomain c) :
    CellsWithin rt path dt inDomain outside values ↔
      (∃ v ∈ values, isNull v = false ∧ leafCell rt dt v = none) ∨ ∀ v ∈ values, ¬ outside v := by
  have hbuild : Reports path ((buildColumn rt dt path values).map Arr.cells) _ :=
    scalar_reports path hscalar hsupported (bytesFit_of_maxOffset hmax values)
  rcases hbuild.of_map with ⟨column, hrun, hcells⟩ | ⟨e, hrun, hnames, hcells⟩
  · -- The column is built, so all its values convert.
    have hconverts : ¬ ∃ v ∈ values, isNull v = false ∧ leafCell rt dt v = none := by
      rintro ⟨v, hv, hvalue, hnone⟩
      rw [← rowCell_scalar hscalar htype hvalue] at hnone
      have hall := Traverse.mapM_eq_none_iff.2 ⟨v, hv, hnone⟩
      rw [hcells] at hall
      cases hall
    constructor
    · rintro ⟨-, herror⟩
      refine .inr fun v hv hout => ?_
      obtain ⟨e, he, -⟩ := herror ⟨v, hv, hout⟩
      rw [hrun] at he
      cases he
    · rintro (hfails | hall)
      · exact absurd hfails hconverts
      · refine ⟨fun column' hrun' c hc => ?_, fun ⟨v, hv, hout⟩ => absurd hout (hall v hv)⟩
        rw [hrun] at hrun'
        cases hrun'
        obtain ⟨v, hv, hcell⟩ := Traverse.exists_of_mem_mapM hcells hc
        by_cases hvalue : isNull v = true
        · rw [rowCell_of_isNull _ hvalue] at hcell
          cases hcell
          exact .inl rfl
        · rw [Bool.not_eq_true] at hvalue
          rw [rowCell_scalar hscalar htype hvalue] at hcell
          exact .inr (hinside v hv c hcell (hall v hv))
  · -- The column is refused, so some value of it does not convert.
    obtain ⟨v, hv, hnone⟩ := Traverse.mapM_eq_none_iff.1 hcells
    have hvalue : isNull v = false := by
      by_contra hnull'
      rw [Bool.not_eq_false] at hnull'
      rw [rowCell_of_isNull _ hnull'] at hnone
      cases hnone
    rw [rowCell_scalar hscalar htype hvalue] at hnone
    constructor
    · exact fun _ => .inl ⟨v, hv, hvalue, hnone⟩
    · intro _
      refine ⟨fun column hrun' => ?_, fun _ => ⟨e, hrun, hnames⟩⟩
      rw [hrun] at hrun'
      cases hrun'

/-! ## Decimals -/

/-- The exact number a value stands for, as a mantissa and a power of ten.  Floats and values
that are no numbers have none. -/
def exactParts (v : Value) : Option (I128 × I32) :=
  match decimalParts v with
  | some parts => some parts
  | none => (Bignum.fromValue v).map fun n => (n, wholeNumber)

/-- The number a value is at `scale` digits: exact, or rounded from float arithmetic.  It is
rational, so that no width limits it yet. -/
def unscaled (fp : FloatOps) (scale : I8) (v : Value) : Option ℚ :=
  match exactParts v with
  | some (mantissa, exponent) => some ((mantissa.val : ℚ) * 10 ^ (exponent.val + scale.val))
  | none => (asF64 fp v).bind fun raw => (fp.round (fp.mul raw (fp.powi10 scale.val))).toRat?

/-- The number can be stored: an exact one is a 128-bit integer, a rounded one is in range.
A zero must not be shifted by more than 38 digits. -/
def Storable (scale : I8) (v : Value) (q : ℚ) : Prop :=
  match exactParts v with
  | some (mantissa, exponent) => (∃ r : I128, q = r.val) ∧
      (mantissa.val = 0 → -38 ≤ exponent.val + scale.val ∧ exponent.val + scale.val ≤ 38)
  | none => |q| < 0x80000000000000000000000000000000

/-- The value is a number that can be stored. -/
def IsStorable (fp : FloatOps) (scale : I8) (v : Value) : Prop :=
  ∃ q, unscaled fp scale v = some q ∧ Storable scale v q

theorem exactNumber_eq_map (v : Value) (scale : I8) :
    exactNumber v scale = (exactParts v).map fun parts => rescaled parts.1 parts.2 scale := by
  unfold exactNumber exactParts
  cases decimalParts v with
  | some parts => rfl
  | none => rw [Option.map_map]; rfl

/-- Truncation does not leave the bounds of a number. -/
theorem abs_trunc_lt {q : ℚ} {b : Nat} (h : |q| < b) : |q.num.tdiv q.den| < b := by
  have hden : (0 : ℚ) < q.den := by exact_mod_cast q.den_pos
  have hnum : |(q.num : ℚ)| < b * q.den := by
    rwa [← Rat.num_div_den q, abs_div, abs_of_pos hden, div_lt_iff₀ hden] at h
  have hnat : q.num.natAbs < b * q.den := by
    rw [← Int.cast_abs, Int.abs_eq_natAbs] at hnum
    exact_mod_cast hnum
  have hquot : (q.num.tdiv q.den).natAbs < b := by
    rw [Int.natAbs_tdiv]
    exact Nat.div_lt_of_lt_mul (by rwa [Int.natAbs_natCast, Nat.mul_comm])
  rw [Int.abs_eq_natAbs]
  exact_mod_cast hquot

/-- A float cast to 128 bits is bounded by what bounds the float, since the cast truncates. -/
theorem toI128_within {f : F64} {q : ℚ} (hq : f.toRat? = some q)
    (hlt : |q| < 0x80000000000000000000000000000000) {b : Nat} (hb : |q| < b) :
    |f.toI128.val| < b := by
  have htrunc : |q.num.tdiv q.den| < (0x80000000000000000000000000000000 : Nat) :=
    abs_trunc_lt (by exact_mod_cast hlt)
  rw [abs_lt] at htrunc
  push_cast at htrunc
  have hcast : f.toI128.val = q.num.tdiv q.den := by
    rw [F64.toI128, F64.trunc?, hq, Option.map_some]
    simp only
    rw [I128.saturate, Ranged.tryFrom_of_mem (by omega) (by omega), Option.getD_some]
  rw [hcast]
  exact abs_trunc_lt hb

/-- The decimal conversion succeeds exactly on the numbers that can be stored, and keeps
their bounds. -/
theorem decimalOf_spec (fp : FloatOps) (v : Value) (scale : I8) :
    (decimalOf fp v scale = none ↔ ¬ IsStorable fp scale v) ∧
      ∀ n, decimalOf fp v scale = some n →
        ∃ q, unscaled fp scale v = some q ∧ ∀ b : Nat, |q| < b → |n.val| < b := by
  rw [decimalOf, exactNumber_eq_map]
  simp only [IsStorable, unscaled, Storable]
  cases exactParts v with
  | some parts =>
      obtain ⟨mantissa, exponent⟩ := parts
      simp only [Option.map_some, Option.some.injEq, exists_eq_left']
      constructor
      · constructor
        · rintro hnone ⟨⟨r, hr⟩, hzero⟩
          rw [rescaled_eq_some_iff.2 ⟨hr, hzero⟩] at hnone
          cases hnone
        · intro hnot
          by_contra hsome
          obtain ⟨r, hr⟩ := Option.ne_none_iff_exists'.1 hsome
          obtain ⟨heq, hzero⟩ := rescaled_eq_some_iff.1 hr
          exact hnot ⟨⟨r, heq⟩, hzero⟩
      · intro n hn
        refine fun b hb => ?_
        rw [(rescaled_eq_some_iff.1 hn).1] at hb
        exact_mod_cast hb
  | none =>
      simp only [Option.map_none]
      cases hraw : asF64 fp v with
      | none => simp
      | some raw =>
          simp only [Option.bind_some]
          generalize fp.round (fp.mul raw (fp.powi10 scale.val)) = scaled
          cases hq : scaled.toRat? with
          | none => simp
          | some q =>
              simp only [Option.bind_some, Option.some.injEq, exists_eq_left']
              -- Past the check, the truncating cast is within the bounds of what it truncates.
              by_cases hrange : 0x80000000000000000000000000000000 ≤ |q|
              · rw [if_pos hrange]
                simp [hrange]
              · rw [if_neg hrange]
                refine ⟨by simpa using hrange, ?_⟩
                rintro n hn
                cases hn
                exact fun b hb => toI128_within hq (not_le.1 hrange) hb

/-- A decimal column of a precision or scale that there is not is refused, with an error on
the column. -/
theorem buildColumn_badDecimal {p : Nat} {s : I8} (h : supported (.decimal128 p s) = false)
    (values : List Value) :
    ∃ e, buildColumn rt (.decimal128 p s) path values = .error e ∧ NamesColumn path e := by
  have hbad : ¬ ArrayLibrary.DecimalTaken p s := by
    rw [supported, decide_eq_false_iff_not] at h
    exact h
  have hleaf : leafAt rt path (.decimal128 p s) = some fun v =>
      (decimalAt rt path v s (.decimal128 p s)).map .decimal := rfl
  have hcells : Reports path (appendAll (.decimal128 p s) (nullable _) values) _ :=
    Computes.spend (fun v _ => nullable_reports hleaf v) (Within.none _)
  have hbuild : Reports path (buildColumn rt (.decimal128 p s) path values)
      ((values.mapM (rowCell rt (.decimal128 p s))).bind fun _ => (none : Option Arr)) := by
    simp only [buildColumn, hleaf]
    apply hcells.bind
    intro cells _
    obtain ⟨e, he⟩ := (rt.arrays.decimal_makes p s (.leaf cells)).refused hbad
    rw [he]
    exact reports_err _
  rwa [Option.bind_fun_none] at hbuild

/-- The cell is an unscaled decimal of at most `p` digits, which is what the precision of the
column promises. -/
def DecimalDomain (p : Nat) (c : Cell) : Prop := ∃ n, c = .decimal n ∧ |n.val| < 10 ^ p

/-- The number has more than `p` digits at the scale of the column. -/
def BeyondDecimal (fp : FloatOps) (p : Nat) (s : I8) (v : Value) : Prop :=
  ∃ q, unscaled fp s v = some q ∧ 10 ^ p ≤ |q|

theorem decimal_within_iff (rt : Runtime) (path : String) (p : Nat) (s : I8)
    (values : List Value) :
    CellsWithin rt path (.decimal128 p s) (DecimalDomain p) (BeyondDecimal rt.fp p s) values ↔
      supported (.decimal128 p s) = false ∨
        (∃ v ∈ values, isNull v = false ∧ ¬ IsStorable rt.fp s v) ∨
        ∀ v ∈ values, ¬ BeyondDecimal rt.fp p s v := by
  by_cases hsupported : supported (.decimal128 p s) = true
  · have hinside (v : Value) (_ : v ∈ values) (c : Cell)
        (hcell : leafCell rt (.decimal128 p s) v = some c)
        (hout : ¬ BeyondDecimal rt.fp p s v) : DecimalDomain p c := by
      obtain ⟨n, hn, rfl⟩ := Option.map_eq_some_iff.1 hcell
      obtain ⟨q, hq, hbound⟩ := (decimalOf_spec rt.fp v s).2 n hn
      have hlt : |q| < (10 ^ p : Nat) := by
        push_cast
        exact not_le.1 fun hle => hout ⟨q, hq, hle⟩
      exact ⟨n, rfl, by exact_mod_cast hbound (10 ^ p) hlt⟩
    have hnone (v : Value) :
        leafCell rt (.decimal128 p s) v = none ↔ ¬ IsStorable rt.fp s v := by
      rw [← (decimalOf_spec rt.fp v s).1, leafCell, Option.map_eq_none_iff]
    rw [cellsWithin_iff rfl hsupported rfl rfl hinside]
    simp only [hnone, hsupported, Bool.true_eq_false, false_or]
  · rw [Bool.not_eq_true] at hsupported
    obtain ⟨e, herror, hnames⟩ := buildColumn_badDecimal hsupported values
    refine ⟨fun _ => .inl hsupported, fun _ => ⟨fun column hrun => ?_, fun _ => ⟨e, herror, hnames⟩⟩⟩
    rw [herror] at hrun
    cases hrun

/-! ## Times of day -/

/-- The cell is a time of day within 24 hours, counted in the unit. -/
def TimeDomain (unit : TimeUnit) (c : Cell) : Prop :=
  ∃ n, c = .int n ∧ 0 ≤ n.val ∧ n.val < dayCounts unit

/-- The integer is no number of microseconds within 24 hours. -/
def BeyondDay (v : Value) : Prop :=
  ∃ n, v = .integer n ∧ ¬ (0 ≤ n.val ∧ n.val < dayCounts .microsecond)

theorem timeCount_within (unit : TimeUnit) {us : Int} (hlo : 0 ≤ us)
    (hhi : us < dayCounts .microsecond) :
    0 ≤ timeCount unit us ∧ timeCount unit us < dayCounts unit := by
  simp only [dayCounts, unitDigits] at hhi ⊢
  cases unit with
  | second =>
      simp only [timeCount]
      rw [Int.tdiv_eq_ediv_of_nonneg hlo]
      omega
  | millisecond =>
      simp only [timeCount]
      rw [Int.tdiv_eq_ediv_of_nonneg hlo]
      omega
  | microsecond => exact ⟨hlo, hhi⟩
  | nanosecond =>
      simp only [timeCount]
      omega

theorem time_within_iff (rt : Runtime) (path : String) (unit : TimeUnit) (ns : List Integer) :
    CellsWithin rt path (timeType unit) (TimeDomain unit) BeyondDay (ns.map .integer) ↔
      (∃ n ∈ ns, ¬ Accepts unit n.val) ∨
        ∀ n ∈ ns, 0 ≤ n.val ∧ n.val < dayCounts .microsecond := by
  have hinside (v : Value) (hv : v ∈ ns.map Value.integer) (c : Cell)
      (hcell : leafCell rt (timeType unit) v = some c) (hout : ¬ BeyondDay v) :
      TimeDomain unit c := by
    obtain ⟨n, -, rfl⟩ := List.mem_map.1 hv
    have hday : 0 ≤ n.val ∧ n.val < dayCounts .microsecond := not_not.1 fun h => hout ⟨n, rfl, h⟩
    obtain ⟨haccept, hrefuse⟩ := @leafCell_time rt unit [] n
    by_cases h : Accepts unit n.val
    · obtain ⟨count, hcount, hok⟩ := haccept h
      obtain rfl : Cell.int count = c := Option.some.inj (hok.symm.trans hcell)
      exact ⟨count, rfl, by rw [hcount]; exact timeCount_within unit hday.1 hday.2⟩
    · cases (hrefuse h).symm.trans hcell
  have hnone (n : Integer) :
      leafCell rt (timeType unit) (.integer n) = none ↔ ¬ Accepts unit n.val := by
    obtain ⟨haccept, hrefuse⟩ := @leafCell_time rt unit [] n
    refine ⟨fun hnone h => ?_, hrefuse⟩
    obtain ⟨count, -, hok⟩ := haccept h
    cases hok.symm.trans hnone
  rw [cellsWithin_iff (by cases unit <;> rfl) (by cases unit <;> rfl) (by cases unit <;> rfl)
    (by cases unit <;> rfl) hinside]
  simp [hnone, BeyondDay, isNull, untag]

/-! ## The missing checks -/

/-- Decimal and time columns stay within their domains in the columns that are refused
anyway, and where no value is outside; nowhere else. -/
theorem domain_kept_iff (rt : Runtime) (path : String) :
    (∀ (p : Nat) (s : I8) (values : List Value),
      CellsWithin rt path (.decimal128 p s) (DecimalDomain p) (BeyondDecimal rt.fp p s) values ↔
        supported (.decimal128 p s) = false ∨
          (∃ v ∈ values, isNull v = false ∧ ¬ IsStorable rt.fp s v) ∨
          ∀ v ∈ values, ¬ BeyondDecimal rt.fp p s v) ∧
    (∀ (unit : TimeUnit) (ns : List Integer),
      CellsWithin rt path (timeType unit) (TimeDomain unit) BeyondDay (ns.map .integer) ↔
        (∃ n ∈ ns, ¬ Accepts unit n.val) ∨
          ∀ n ∈ ns, 0 ≤ n.val ∧ n.val < dayCounts .microsecond) :=
  ⟨decimal_within_iff rt path, time_within_iff rt path⟩

/-- 1000 becomes `1000.0` in a `DECIMAL(4,1)` column, and a whole day becomes a time. -/
theorem domain_left :
    ¬ CellsWithin .bare "d" (.decimal128 4 (I8.ofNat 1)) (DecimalDomain 4)
        (BeyondDecimal Runtime.bare.fp 4 (I8.ofNat 1)) [.integer ⟨1000, by decide, by decide⟩] ∧
      ¬ CellsWithin .bare "t" (timeType .microsecond) (TimeDomain .microsecond) BeyondDay
        [.integer ⟨86400000000, by decide, by decide⟩] := by
  have hdecimal : ∃ column, buildColumn .bare (.decimal128 4 (I8.ofNat 1)) "d"
      [.integer ⟨1000, by decide, by decide⟩] = .ok column ∧
        column.cells = [.decimal ⟨10000, by decide, by decide⟩] := ⟨_, rfl, rfl⟩
  have htime : ∃ column, buildColumn .bare (timeType .microsecond) "t"
      [.integer ⟨86400000000, by decide, by decide⟩] = .ok column ∧
        column.cells = [.int ⟨86400000000, by decide, by decide⟩] := ⟨_, rfl, rfl⟩
  constructor
  · obtain ⟨column, hrun, hcells⟩ := hdecimal
    rintro ⟨hwithin, -⟩
    rcases hwithin column hrun _ (hcells ▸ List.mem_cons_self) with h | ⟨n, hn, hlt⟩
    · cases h
    · rw [← Cell.decimal.inj hn] at hlt
      exact absurd hlt (by decide)
  · obtain ⟨column, hrun, hcells⟩ := htime
    rintro ⟨hwithin, -⟩
    rcases hwithin column hrun _ (hcells ▸ List.mem_cons_self) with h | ⟨n, hn, -, hlt⟩
    · cases h
    · rw [← Cell.int.inj hn] at hlt
      exact absurd hlt (by decide)

end VgiCbor.ValueOut
