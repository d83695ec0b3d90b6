import VgiCbor.Lib.DecimalScale
import VgiCbor.Worker.RowSemantics

/-!
# Scaling is exact

`rescale` moves the decimal point of a 128-bit mantissa.  It returns a number exactly
when some 128-bit integer is the same number at the target scale; only a zero may be
refused although it has one.  So an exact CBOR number becomes a timestamp exactly when
it is a whole number of the column's units that fits in 64 bits.
-/

namespace VgiCbor.ValueOut

open MachineInt BigEndian DecimalScale

/-! ## Rescaling -/

/-- `10 ^ 38` is the last power that a 128-bit integer holds. -/
theorem checkedPow10_none {k : Nat} (hk : 38 < k) : I128.checkedPow10 k = none := by
  rw [I128.checkedPow10, if_neg (by omega)]

/-- A multiple of a larger power of ten is no 128-bit integer, unless it is zero. -/
theorem mul_pow_ne {m : Int} (hm : m ≠ 0) {k : Nat} (hk : 38 < k) (r : I128) :
    m * 10 ^ k ≠ r.val := by
  intro heq
  have hlarge := pow_le_natAbs_mul hm (show 39 ≤ k by omega)
  have hge := r.ge
  have hlt := r.lt
  rw [heq] at hlarge
  omega

/-- Beyond 38 digits in either direction there is no 128-bit result but zero.  So a refusal
out there refuses nothing that exists. -/
theorem mul_zpow_ne {m : I128} {k : Int} (hfar : k < -38 ∨ 38 < k) (hm : m.val ≠ 0) (r : I128) :
    (m.val : ℚ) * 10 ^ k ≠ r.val := by
  intro heq
  rcases hfar with hneg | hpos
  · rw [mul_zpow_of_neg (by omega)] at heq
    have hr : r.val ≠ 0 := fun h => hm (by rw [heq, h, Int.zero_mul])
    exact mul_pow_ne hr (show 38 < (-k).toNat by omega) m heq.symm
  · rw [mul_zpow_of_nonneg (by omega)] at heq
    exact mul_pow_ne hm (show 38 < k.toNat by omega) r heq

/-- A shift by more than 38 digits is refused, also one that wraps around: it wraps to a
number that is as far out. -/
theorem rescaled_far {mantissa : I128} {exponent : I32} {scale : I8}
    (hfar : exponent.val + scale.val < -38 ∨ 38 < exponent.val + scale.val) :
    rescaled mantissa exponent scale = none := by
  have hwrapped : (I32.wrap (exponent.val + scale.val)).val < -38 ∨
      38 < (I32.wrap (exponent.val + scale.val)).val := by
    have hexponent := (⟨exponent.ge, exponent.lt⟩ : _ ∧ _)
    have hscale := (⟨scale.ge, scale.lt⟩ : _ ∧ _)
    simp only [I32.wrap]
    omega
  rw [rescaled]
  by_cases hsign : 0 ≤ (I32.wrap (exponent.val + scale.val)).val
  · rw [if_pos hsign, checkedPow10_none (by omega), Option.bind_none]
  · rw [if_neg hsign, checkedPow10_none (by omega), Option.bind_none]

/-- Rescaling returns `r` exactly when `mantissa × 10^exponent` is `r × 10^(-scale)`, but
that a zero is refused when the powers of ten are too far apart. -/
theorem rescaled_eq_some_iff {mantissa r : I128} {exponent : I32} {scale : I8} :
    rescaled mantissa exponent scale = some r ↔
      (mantissa.val : ℚ) * 10 ^ (exponent.val + scale.val) = r.val ∧
        (mantissa.val = 0 → -38 ≤ exponent.val + scale.val ∧ exponent.val + scale.val ≤ 38) := by
  by_cases hnear : -38 ≤ exponent.val + scale.val ∧ exponent.val + scale.val ≤ 38
  · have hshift : (I32.wrap (exponent.val + scale.val)).val = exponent.val + scale.val :=
      I32.wrap_val_of_mem (by omega) (by omega)
    rw [rescaled, hshift]
    revert hnear
    generalize exponent.val + scale.val = shift
    intro hnear
    by_cases hsign : 0 ≤ shift
    · obtain ⟨factor, hfactor, hval⟩ := I128.exists_checkedPow10 (show shift.toNat ≤ 38 by omega)
      rw [if_pos hsign, mul_zpow_of_nonneg hsign, hfactor, Option.bind_some, I128.checkedMul,
        Ranged.tryFrom_eq_some_iff, hval]
      exact ⟨fun h => ⟨h.symm, fun _ => hnear⟩, fun h => h.1.symm⟩
    · obtain ⟨factor, hfactor, hval⟩ :=
        I128.exists_checkedPow10 (show (-shift).toNat ≤ 38 by omega)
      have hpos : (10 : Int) ^ (-shift).toNat ≠ 0 := Int.pow_ne_zero (by omega)
      rw [if_neg hsign, mul_zpow_of_neg (by omega), hfactor, Option.bind_some, hval]
      -- The dropped digits are all zero exactly when the division is exact.
      by_cases hdigits : mantissa.val.tmod (10 ^ (-shift).toNat) = 0
      · have hdvd := Int.dvd_of_tmod_eq_zero hdigits
        have hmem := tdiv_mem (10 ^ (-shift).toNat) ⟨mantissa.ge, mantissa.lt⟩
        push_cast at hmem
        have hquotient : (I128.wrap (mantissa.val.tdiv (10 ^ (-shift).toNat))).val =
            mantissa.val.tdiv (10 ^ (-shift).toNat) := I128.wrap_val_of_mem hmem.1 hmem.2
        rw [if_neg (not_not.2 hdigits), Option.some.injEq]
        constructor
        · rintro rfl
          refine ⟨?_, fun _ => hnear⟩
          rw [hquotient, Int.tdiv_mul_cancel hdvd]
        · rintro ⟨heq, -⟩
          apply Ranged.ext_val
          rw [hquotient, heq, Int.mul_tdiv_cancel _ hpos]
      · rw [if_pos hdigits]
        constructor
        · intro h
          cases h
        · rintro ⟨heq, -⟩
          exact absurd (by rw [heq, Int.mul_tmod_left]) hdigits
  · rw [rescaled_far (by omega)]
    constructor
    · intro h
      cases h
    · rintro ⟨heq, hzero⟩
      -- Only zero is a power of ten that far away from a 128-bit integer.
      have hne : mantissa.val ≠ 0 := fun h => hnear (hzero h)
      exact absurd heq (mul_zpow_ne (by omega) hne r)

/-! ## Exact forms -/

/-- The integers of the value model: native ones, and bignums of any length.  Leading zeros of
a bignum do not matter. -/
inductive IntegerForm : Value → Int → Prop
  | native (n : Integer) : IntegerForm (.integer n) n.val
  | positive (b : Bytes) : IntegerForm (.tag 2 (.bytes b)) (ofBytes b)
  | negative (b : Bytes) : IntegerForm (.tag 3 (.bytes b)) (-1 - ofBytes b)

/-- The exact numbers of the value model, as `mantissa × 10^exponent`: integers, tag-4
decimal fractions, and the bare pairs these become without tags. -/
inductive ExactForm : Value → Int → Int → Prop
  | whole {v : Value} {n : Int} (h : IntegerForm v n) : ExactForm v n 0
  | fraction {e m : Value} {exponent mantissa : Int} (he : IntegerForm e exponent)
      (hm : IntegerForm m mantissa) : ExactForm (.tag 4 (.array [e, m])) mantissa exponent
  | pair {e m : Value} {exponent mantissa : Int} (he : IntegerForm e exponent)
      (hm : IntegerForm m mantissa) : ExactForm (.array [e, m]) mantissa exponent

/-- An integer that fits in 128 bits is read, however it is written. -/
theorem fromValue_of_form {v : Value} {n : Int} (h : IntegerForm v n) {x : I128}
    (hx : x.val = n) : Bignum.fromValue v = some x := by
  have hge := x.ge
  have hlt := x.lt
  cases h with
  | native i => exact congrArg some (Ranged.ext_val hx.symm)
  | positive b =>
      rw [Bignum.fromValue_tag2 (Bignum.beToU128_of_lt (by omega)),
        Ranged.tryFrom_eq_some_iff]
      exact hx
  | negative b =>
      have hmagnitude : ∃ m : I128, m.val = ofBytes b := ⟨⟨ofBytes b, by omega, by omega⟩, rfl⟩
      obtain ⟨m, hm⟩ := hmagnitude
      rw [Bignum.fromValue_tag3 (Bignum.beToU128_of_lt (by omega)) hm,
        Ranged.tryFrom_eq_some_iff, hm]
      exact hx

/-- A pair of a 32-bit exponent and a mantissa is a decimal fraction, with its tag 4 or
without. -/
theorem decimalParts_of_forms {e m : Value} {exponent : I32} {mantissa : I128}
    (he : IntegerForm e exponent.val) (hm : IntegerForm m mantissa.val) :
    decimalParts (.array [e, m]) = some (mantissa, exponent) ∧
      decimalParts (.tag 4 (.array [e, m])) = some (mantissa, exponent) := by
  have hge := exponent.ge
  have hlt := exponent.lt
  have hwide : ∃ x : I128, x.val = exponent.val := ⟨⟨exponent.val, by omega, by omega⟩, rfl⟩
  obtain ⟨x, hx⟩ := hwide
  have htry : (Ranged.tryFrom _ _ x.val : Option I32) = some exponent :=
    Ranged.tryFrom_eq_some_iff.2 hx.symm
  have hpair : decimalParts (.array [e, m]) = some (mantissa, exponent) := by
    simp only [decimalParts, Msgpack.decimalParts]
    rw [fromValue_of_form he hx, Option.bind_some, htry, Option.bind_some,
      fromValue_of_form hm rfl, Option.map_some]
  refine ⟨hpair, ?_⟩
  rw [← hpair]
  simp only [decimalParts, Msgpack.decimalParts, if_true]

/-- A value in an exact form is rescaled as the number it denotes, and never goes through a
float. -/
theorem exactNumber_of_form {v : Value} {mantissa : I128} {exponent : I32}
    (h : ExactForm v mantissa.val exponent.val) (scale : I8) :
    exactNumber v scale = some (rescaled mantissa exponent scale) := by
  generalize hm : mantissa.val = m at h
  generalize he : exponent.val = e at h
  cases h with
  | whole hwhole =>
      have hzero : exponent = wholeNumber := Ranged.ext_val he
      have hparts : decimalParts v = none := by
        cases hwhole <;> rfl
      rw [exactNumber, hparts, hzero]
      simp only
      rw [fromValue_of_form hwhole hm, Option.map_some]
  | fraction hexp hmant =>
      subst hm he
      rw [exactNumber, (decimalParts_of_forms hexp hmant).2]
  | pair hexp hmant =>
      subst hm he
      rw [exactNumber, (decimalParts_of_forms hexp hmant).1]

/-! ## Timestamps -/

variable {rt : Runtime} {path : String}

/-- No exact form has a tag 1 of its own. -/
theorem untagInstant_of_form {v : Value} {mantissa exponent : Int}
    (h : ExactForm v mantissa exponent) : untagInstant v = v := by
  cases h with
  | whole hwhole => cases hwhole <;> rfl
  | fraction => rfl
  | pair => rfl

/-- An instant in an exact form, with or without its tag 1, is its number at the digits of the
unit. -/
theorem timestampOf_of_form {inner v : Value} {mantissa : I128} {exponent : I32}
    (h : ExactForm inner mantissa.val exponent.val) (hv : v = inner ∨ v = .tag 1 inner)
    (unit : TimeUnit) :
    timestampOf rt.fp v unit =
      (rescaled mantissa exponent (unitExp unit)).bind fun n => Ranged.tryFrom _ _ n.val := by
  have huntag : untagInstant v = inner := by
    rcases hv with rfl | rfl
    · exact untagInstant_of_form h
    · rfl
  rw [timestampOf, huntag, exactNumber_of_form h]

/-- The timestamp of an instant in an exact form: the count of units it is, if it is a
whole one and fits in 64 bits. -/
theorem timestampOf_eq_some_iff {inner v : Value} {mantissa : I128} {exponent : I32}
    (h : ExactForm inner mantissa.val exponent.val) (hv : v = inner ∨ v = .tag 1 inner)
    {unit : TimeUnit} {t : I64} :
    timestampOf rt.fp v unit = some t ↔
      (mantissa.val : ℚ) * 10 ^ exponent.val = t.val / 10 ^ (unitExp unit).val ∧
        (mantissa.val = 0 → -38 ≤ exponent.val + (unitExp unit).val ∧
          exponent.val + (unitExp unit).val ≤ 38) := by
  have hge := t.ge
  have hlt := t.lt
  have hwide : ∃ r : I128, r.val = t.val := ⟨⟨t.val, by omega, by omega⟩, rfl⟩
  obtain ⟨r, hr⟩ := hwide
  have hrescaled : rescaled mantissa exponent (unitExp unit) = some r ↔ _ := rescaled_eq_some_iff
  rw [hr, ← mul_zpow_eq_iff, zpow_neg, ← div_eq_mul_inv] at hrescaled
  rw [timestampOf_of_form h hv, ← hrescaled, Option.bind_eq_some_iff]
  constructor
  · rintro ⟨n, hn, hnarrow⟩
    have hval : t.val = n.val := Ranged.tryFrom_eq_some_iff.1 hnarrow
    rwa [Ranged.ext_val (hr.trans hval)]
  · intro hn
    exact ⟨r, hn, Ranged.tryFrom_eq_some_iff.2 hr.symm⟩

/-- A zero is refused only as a fraction: an integer is scaled by at most nine digits. -/
theorem near_of_whole {inner : Value} {mantissa exponent : Int}
    (h : ExactForm inner mantissa exponent) (hwhole : IntegerForm inner mantissa)
    (unit : TimeUnit) :
    -38 ≤ exponent + (unitExp unit).val ∧ exponent + (unitExp unit).val ≤ 38 := by
  have hzero : exponent = 0 := by
    cases hwhole <;> cases h <;> rfl
  cases unit <;> simp [hzero, unitExp, I8.ofNat]

/-- `rescale` and `timestampAt` are exact, and refuse only what cannot be represented.
A rescaled number is the number it was; for a non-zero mantissa an error means that no
128-bit integer is that number at the scale.  An instant in an exact form becomes the
count `t` exactly when it is `t` units of the column, zero fractions aside. -/
theorem scaling_exact (rt : Runtime) (path : String) (dt : DataType) :
    (∀ (mantissa : I128) (exponent : I32) (scale : I8),
      -0x80000000 ≤ exponent.val + scale.val ∧ exponent.val + scale.val < 0x80000000 →
      (∀ r, rescale rt path mantissa exponent scale dt = .ok r →
        (mantissa.val : ℚ) * 10 ^ exponent.val = r.val * 10 ^ (-scale.val)) ∧
      (mantissa.val ≠ 0 → ∀ e, rescale rt path mantissa exponent scale dt = .error e →
        ∀ r : I128, (mantissa.val : ℚ) * 10 ^ exponent.val ≠ r.val * 10 ^ (-scale.val))) ∧
    (∀ (inner : Value) (mantissa : I128) (exponent : I32) (unit : TimeUnit),
      ExactForm inner mantissa.val exponent.val →
      -0x80000000 ≤ exponent.val + (unitExp unit).val ∧
        exponent.val + (unitExp unit).val < 0x80000000 →
      ∀ v, v = inner ∨ v = .tag 1 inner → ∀ t : I64,
        (timestampAt rt path v unit dt = .ok t →
          (mantissa.val : ℚ) * 10 ^ exponent.val = t.val / 10 ^ (unitExp unit).val) ∧
        ((mantissa.val : ℚ) * 10 ^ exponent.val = t.val / 10 ^ (unitExp unit).val →
          mantissa.val ≠ 0 ∨ IntegerForm inner mantissa.val →
          timestampAt rt path v unit dt = .ok t)) := by
  constructor
  · intro mantissa exponent scale _
    have hreports : Reports path (rescale rt path mantissa exponent scale dt) _ :=
      rescale_reports mantissa exponent scale dt
    constructor
    · intro r hr
      rw [mul_zpow_eq_iff]
      exact (rescaled_eq_some_iff.1 (hreports.ok_iff.1 hr)).1
    · intro hne e he r heq
      rw [mul_zpow_eq_iff] at heq
      have hok := hreports.ok_iff.2 (rescaled_eq_some_iff.2
        ⟨heq, fun hzero => absurd hzero hne⟩)
      rw [he] at hok
      cases hok
  · intro inner mantissa exponent unit hform _ v hv t
    have hreports : Reports path (timestampAt rt path v unit dt) _ :=
      timestampAt_reports v unit dt
    rw [hreports.ok_iff, timestampOf_eq_some_iff hform hv]
    constructor
    · exact fun h => h.1
    · rintro heq (hne | hwhole)
      · exact ⟨heq, fun hzero => absurd hzero hne⟩
      · exact ⟨heq, fun _ => near_of_whole hform hwhole unit⟩

/-- One and a half seconds before the epoch, as a fraction of a second with four digits. -/
theorem scaling_exact_before_epoch :
    timestampAt .bare "t" (.tag 1 (.array [.integer ⟨-4, by decide, by decide⟩,
        .integer ⟨-15000, by decide, by decide⟩])) .millisecond (.timestamp .millisecond none) =
      .ok ⟨-1500, by decide, by decide⟩ := by
  have hform : ExactForm (.array [.integer ⟨-4, by decide, by decide⟩,
      .integer ⟨-15000, by decide, by decide⟩]) (-15000) (-4) := .pair (.native _) (.native _)
  refine ((scaling_exact .bare "t" (.timestamp .millisecond none)).2 _
    ⟨-15000, by decide, by decide⟩ ⟨-4, by decide, by decide⟩ .millisecond hform (by decide) _
    (.inr rfl) _).2 ?_ (.inl (by decide))
  norm_num [unitExp, I8.ofNat]

end VgiCbor.ValueOut
