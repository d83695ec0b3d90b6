import VgiCbor.Lib.MachineInt

/-!
# Binary interchange floats as bit patterns

A float is its bit pattern.  What can be said exactly about it (whether it is
finite, which rational it denotes) is computed from the bits; the rounding
operations are gathered in `FloatOps`, so that a development can be carried out
for any choice of them.
-/

namespace Binary64

open MachineInt

structure F64 where
  bits : UInt64
  deriving DecidableEq

structure F32 where
  bits : UInt32
  deriving DecidableEq

namespace F64

/-- The biased exponent, eleven bits. -/
def exponentField (f : F64) : Nat := f.bits.toNat / 2 ^ 52 % 2 ^ 11

/-- The stored part of the significand, fifty-two bits. -/
def fraction (f : F64) : Nat := f.bits.toNat % 2 ^ 52

/-- The sign bit. -/
def isNegative (f : F64) : Bool := decide (0x8000000000000000 ≤ f.bits.toNat)

/-- Neither infinite nor `NaN`. -/
def isFinite (f : F64) : Bool := f.exponentField != 2047

def isNan (f : F64) : Bool := f.exponentField == 2047 && f.fraction != 0

/-- The rational a finite float denotes; `none` for the others.  Both zeros denote zero. -/
def toRat? (f : F64) : Option Rat :=
  if f.isFinite then
    let significand : Int :=
      if f.exponentField = 0 then f.fraction else 2 ^ 52 + f.fraction
    let signed := if f.isNegative then -significand else significand
    let exponent := max f.exponentField 1
    if 1075 ≤ exponent then some (signed * 2 ^ (exponent - 1075) : Int)
    else some (mkRat signed (2 ^ (1075 - exponent)))
  else none

/-- `f.fract() == 0.0 && f.is_finite()`. -/
def isIntegral (f : F64) : Bool := f.toRat?.any fun q => q.den == 1

/-- The float truncated toward zero, for the finite ones. -/
def trunc? (f : F64) : Option Int := f.toRat?.map fun q => q.num.tdiv q.den

/-- `f as i128`: truncation, saturating at the ends and zero for `NaN`, as casts of the
language do. -/
def toI128 (f : F64) : I128 :=
  match f.trunc? with
  | some n => I128.saturate n
  | none => if f.isNan then ⟨0, by decide, by decide⟩
      else I128.saturate (if f.isNegative then -10 ^ 39 else 10 ^ 39)

/-- `f as i64`, with the same conventions. -/
def toI64 (f : F64) : I64 := I64.saturate f.toI128.val

/-! ## Values and bit patterns -/

/-- The significand with its leading bit, fifty-three bits. -/
def significand (f : F64) : Nat :=
  if f.exponentField = 0 then f.fraction else 2 ^ 52 + f.fraction

/-- A finite float is its significand, scaled and signed. -/
theorem toRat?_of_isFinite {f : F64} (h : f.isFinite = true) :
    f.toRat? = some ((if f.isNegative then -(f.significand : ℚ) else f.significand) *
      2 ^ max f.exponentField 1 / 2 ^ 1075) := by
  have hsigned : (((if f.isNegative then
      -(if f.exponentField = 0 then (f.fraction : Int) else 2 ^ 52 + f.fraction)
        else if f.exponentField = 0 then (f.fraction : Int) else 2 ^ 52 + f.fraction) : Int) : ℚ) =
      if f.isNegative then -(f.significand : ℚ) else f.significand := by
    unfold significand
    split_ifs <;> push_cast <;> rfl
  unfold toRat?
  rw [if_pos h]
  dsimp only
  rw [← hsigned]
  generalize (if f.isNegative then
      -(if f.exponentField = 0 then (f.fraction : Int) else 2 ^ 52 + f.fraction)
        else if f.exponentField = 0 then (f.fraction : Int) else 2 ^ 52 + f.fraction) = signed
  generalize max f.exponentField 1 = exponent
  have htwo : (2 : ℚ) ^ 1075 ≠ 0 := by positivity
  split_ifs with hlarge
  · have hpow : (2 : ℚ) ^ exponent = 2 ^ (exponent - 1075) * 2 ^ 1075 := by
      rw [← pow_add, Nat.sub_add_cancel hlarge]
    rw [hpow, ← mul_assoc, mul_div_cancel_right₀ _ htwo]
    push_cast
    rfl
  · have hpow : (2 : ℚ) ^ 1075 = 2 ^ (1075 - exponent) * 2 ^ exponent := by
      rw [← pow_add, Nat.sub_add_cancel (by omega)]
    have hne : (2 : ℚ) ^ exponent ≠ 0 := by positivity
    rw [hpow, mul_div_mul_right _ _ hne, Rat.mkRat_eq_div]
    push_cast
    rfl

theorem toRat?_isSome {f : F64} {q : ℚ} (h : f.toRat? = some q) : f.isFinite = true := by
  unfold toRat? at h
  split_ifs at h with hfinite
  all_goals exact hfinite

/-- The sign bit, the exponent and the fraction are all of a float. -/
theorem bits_eq (f : F64) : f.bits.toNat =
    (if f.isNegative then 2 ^ 63 else 0) + f.exponentField * 2 ^ 52 + f.fraction := by
  have hbits := f.bits.toNat_lt
  simp only [isNegative, exponentField, fraction, decide_eq_true_eq]
  split_ifs <;> omega

theorem ext_fields {f g : F64} (hsign : f.isNegative = g.isNegative)
    (hexp : f.exponentField = g.exponentField) (hfrac : f.fraction = g.fraction) : f = g := by
  have hf := f.bits_eq
  rw [hsign, hexp, hfrac, ← g.bits_eq] at hf
  cases f
  cases g
  rw [F64.mk.injEq]
  exact UInt64.toNat_inj.1 hf

theorem fraction_lt (f : F64) : f.fraction < 2 ^ 52 := Nat.mod_lt _ (by decide)

/-- Of two floats with the same scaled significand neither has the larger exponent. -/
theorem exponent_le_of_scaled_eq {f g : F64}
    (h : f.significand * 2 ^ max f.exponentField 1 = g.significand * 2 ^ max g.exponentField 1) :
    max g.exponentField 1 ≤ max f.exponentField 1 := by
  by_contra hlt
  rw [not_le] at hlt
  obtain ⟨d, hd⟩ := Nat.exists_eq_add_of_lt hlt
  have hf := f.fraction_lt
  -- The larger exponent is one of a normal number, whose significand is no shorter.
  have hg : g.significand = 2 ^ 52 + g.fraction := if_neg (by omega)
  have hsmall : f.significand < 2 ^ 53 := by
    unfold significand
    split_ifs <;> omega
  have hcancel : f.significand = g.significand * 2 ^ (d + 1) := by
    apply Nat.eq_of_mul_eq_mul_right (Nat.two_pow_pos (max f.exponentField 1))
    rw [h, hd, Nat.mul_assoc, ← Nat.pow_add]
    congr 2
    omega
  have hpow : 2 ^ 1 ≤ 2 ^ (d + 1) := Nat.pow_le_pow_right (by decide) (by omega)
  have hge : 2 ^ 52 * 2 ^ 1 ≤ (2 ^ 52 + g.fraction) * 2 ^ (d + 1) :=
    Nat.mul_le_mul (by omega) hpow
  rw [hcancel, hg] at hsmall
  omega

/-- A finite float is known by its value and its sign.  The sign is needed for the zeros only. -/
theorem ext_of_toRat? {f g : F64} {q : ℚ} (hf : f.toRat? = some q) (hg : g.toRat? = some q)
    (hsign : f.isNegative = g.isNegative) : f = g := by
  have heq := (toRat?_of_isFinite (toRat?_isSome hf)).symm.trans
    ((hf.trans hg.symm).trans (toRat?_of_isFinite (toRat?_isSome hg)))
  rw [Option.some.injEq, div_left_inj' (by positivity), hsign] at heq
  have hscaled : f.significand * 2 ^ max f.exponentField 1 =
      g.significand * 2 ^ max g.exponentField 1 := by
    split_ifs at heq
    · rw [neg_mul, neg_mul, neg_inj] at heq
      exact_mod_cast heq
    · exact_mod_cast heq
  have hexp : max f.exponentField 1 = max g.exponentField 1 :=
    Nat.le_antisymm (exponent_le_of_scaled_eq hscaled.symm) (exponent_le_of_scaled_eq hscaled)
  have hsignificand : f.significand = g.significand := by
    rw [hexp] at hscaled
    exact Nat.eq_of_mul_eq_mul_right (Nat.two_pow_pos _) hscaled
  have hfrac := f.fraction_lt
  have hfrac' := g.fraction_lt
  -- The leading bit of the significand tells subnormal numbers from the others.
  unfold significand at hsignificand
  refine ext_fields hsign ?_ ?_
  · split_ifs at hsignificand <;> omega
  · split_ifs at hsignificand <;> omega

/-- An infinity is known by its sign. -/
theorem ext_of_infinite {f g : F64} (hf : f.isFinite = false) (hf' : f.isNan = false)
    (hg : g.isFinite = false) (hg' : g.isNan = false) (hsign : f.isNegative = g.isNegative) :
    f = g := by
  simp only [isFinite, isNan, bne_eq_false_iff_eq, Bool.and_eq_false_iff, beq_eq_false_iff_ne] at *
  exact ext_fields hsign (by omega) (by omega)

/-- The sign bit is the sign of the value. -/
theorem toRat?_sign {f : F64} {q : ℚ} (h : f.toRat? = some q) :
    q = if f.isNegative then -|q| else |q| := by
  rw [toRat?_of_isFinite (toRat?_isSome h)] at h
  obtain rfl := Option.some.inj h
  have hnonneg : 0 ≤ (f.significand : ℚ) * 2 ^ max f.exponentField 1 / 2 ^ 1075 := by positivity
  split_ifs
  · rw [neg_mul, neg_div, abs_neg, abs_of_nonneg hnonneg]
  · rw [abs_of_nonneg hnonneg]

end F64

/-! ## Changing the width -/

/-- Widening by moving the exponent to the wider bias: exact for zeros, normal numbers,
infinities and `NaN`s. -/
def F32.rebias (x : F32) : F64 :=
  let n := x.bits.toNat
  let exponent := n / 0x800000 % 0x100
  let wide := if exponent = 0xff then 0x7ff else if exponent = 0 then 0 else exponent + 0x380
  ⟨UInt64.ofNat (n / 0x80000000 * 0x8000000000000000 + wide * 0x10000000000000 +
    n % 0x800000 * 0x20000000)⟩

/-- Narrowing of the floats that were widened so.  It undoes `F32.rebias`, and nothing is
asked of other floats. -/
def F64.rebias (x : F64) : F32 :=
  let n := x.bits.toNat
  let exponent := n / 0x10000000000000 % 0x800
  let short := if exponent = 0x7ff then 0xff else if exponent = 0 then 0 else exponent - 0x380
  ⟨UInt32.ofNat (n / 0x8000000000000000 * 0x80000000 + short * 0x800000 +
    n / 0x20000000 % 0x800000)⟩

theorem F64.rebias_rebias (x : F32) : x.rebias.rebias = x := by
  obtain ⟨bits⟩ := x
  have hbits := bits.toNat_lt
  simp only [F32.rebias, F64.rebias, F32.mk.injEq, UInt64.toNat_ofNat']
  apply UInt32.toNat.inj
  rw [UInt32.toNat_ofNat']
  split_ifs <;> omega

/-! ## Rounding -/

/-- The rounding operations of the float unit and the standard library.  They are parameters:
results say what they need of them. -/
structure FloatOps where
  /-- `n as f64` -/
  ofI128 : I128 → F64
  /-- `10f64.powi(e)` -/
  powi10 : Int → F64
  mul : F64 → F64 → F64
  sub : F64 → F64 → F64
  round : F64 → F64
  floor : F64 → F64
  /-- `x as f64` -/
  widen : F32 → F64
  /-- `x as f32` -/
  narrow : F64 → F32
  /-- The shortest decimal text that reads back as the float. -/
  display : F64 → String

example : (F64.mk 0x4008000000000000).toRat? = some 3 := by decide +kernel
example : (F64.mk 0xBFE0000000000000).toRat? = some (-1 / 2) := by decide +kernel

end Binary64
