import Mathlib

/-!
# Fixed-width integers with their range as a field

A fixed-width integer is an `Int` together with the two bounds of its type, so
an out-of-range value cannot be built.  `tryFrom` is the checked conversion
(`try_from` in a systems language), `wrapSigned` the silent one (`as`).
-/

namespace MachineInt

/-- An integer in the half-open range `[lo, hi)`.  The bounds are part of the type, so a value
that does not fit cannot be built. -/
structure Ranged (lo hi : Int) where
  val : Int
  ge : lo ≤ val
  lt : val < hi
  deriving DecidableEq

abbrev I8 := Ranged (-0x80) 0x80
abbrev I32 := Ranged (-0x80000000) 0x80000000
abbrev U32 := Ranged 0 0x100000000
abbrev I64 := Ranged (-0x8000000000000000) 0x8000000000000000
abbrev U64 := Ranged 0 0x10000000000000000
abbrev I128 := Ranged (-0x80000000000000000000000000000000) 0x80000000000000000000000000000000

namespace Ranged

variable {lo hi lo' hi' : Int}

theorem ext_val {a b : Ranged lo hi} (h : a.val = b.val) : a = b := by
  cases a
  cases b
  simpa using h

/-- Checked conversion: `none` outside the range. -/
def tryFrom (lo hi : Int) (n : Int) : Option (Ranged lo hi) :=
  if h : lo ≤ n ∧ n < hi then some ⟨n, h.1, h.2⟩ else none

theorem tryFrom_of_mem {n : Int} (hlo : lo ≤ n) (hhi : n < hi) :
    tryFrom lo hi n = some ⟨n, hlo, hhi⟩ := by
  simp [tryFrom, hlo, hhi]

@[simp] theorem tryFrom_val (x : Ranged lo hi) : tryFrom lo hi x.val = some x :=
  tryFrom_of_mem x.ge x.lt

theorem tryFrom_eq_some_iff {n : Int} {x : Ranged lo hi} :
    tryFrom lo hi n = some x ↔ x.val = n := by
  constructor
  · intro h
    unfold tryFrom at h
    split at h
    · cases h
      rfl
    · cases h
  · rintro rfl
    exact tryFrom_val x

theorem tryFrom_eq_none_iff {n : Int} :
    tryFrom lo hi n = none ↔ ¬ (lo ≤ n ∧ n < hi) := by
  unfold tryFrom
  split <;> simp_all

/-- The range `[lo, hi)` lies within `[lo', hi')`. -/
class Within (lo hi lo' hi' : Int) : Prop where
  ge : lo' ≤ lo
  le : hi ≤ hi'

/-- A lossless conversion into a wider range. -/
def widen [within : Within lo hi lo' hi'] (x : Ranged lo hi) : Ranged lo' hi' :=
  ⟨x.val, Int.le_trans within.ge x.ge, Int.lt_of_lt_of_le x.lt within.le⟩

@[simp] theorem widen_val [Within lo hi lo' hi'] (x : Ranged lo hi) :
    (x.widen : Ranged lo' hi').val = x.val := rfl

end Ranged

def I8.ofNat (n : Nat) (h : n < 0x80 := by decide) : I8 := ⟨n, by omega, by omega⟩

def I128.checkedMul (a b : I128) : Option I128 :=
  Ranged.tryFrom _ _ (a.val * b.val)

/-- Checked 128-bit power of ten: `10 ^ 38` is the last one that fits.  The guard keeps larger
powers from being computed. -/
def I128.checkedPow10 (k : Nat) : Option I128 :=
  if k ≤ 38 then Ranged.tryFrom _ _ (10 ^ k) else none

/-- The guard of `checkedPow10` is exactly the overflow test. -/
theorem I128.checkedPow10_eq_tryFrom (k : Nat) :
    I128.checkedPow10 k = Ranged.tryFrom _ _ (10 ^ k) := by
  unfold I128.checkedPow10
  split
  · rfl
  · next hk =>
    symm
    rw [Ranged.tryFrom_eq_none_iff]
    rintro ⟨-, hlt⟩
    have hpow : (10 : Nat) ^ 39 ≤ 10 ^ k := Nat.pow_le_pow_right (by decide) (by omega)
    have hcast : ((10 ^ k : Nat) : Int) = 10 ^ k := by push_cast; rfl
    omega

theorem I128.exists_checkedPow10 {k : Nat} (hk : k ≤ 38) :
    ∃ x : I128, I128.checkedPow10 k = some x ∧ x.val = 10 ^ k := by
  have hnonneg : (0 : Int) ≤ 10 ^ k := Int.pow_nonneg (by decide)
  have hle : (10 : Nat) ^ k ≤ 10 ^ 38 := Nat.pow_le_pow_right (by decide) hk
  have hcast : ((10 ^ k : Nat) : Int) = 10 ^ k := by push_cast; rfl
  refine ⟨⟨10 ^ k, by omega, by omega⟩, ?_, rfl⟩
  rw [I128.checkedPow10_eq_tryFrom]
  exact Ranged.tryFrom_of_mem _ _

/-- Truncating division by a count stays in a symmetric range. -/
theorem tdiv_mem {n c : Int} (k : Nat) (h : -c ≤ n ∧ n < c) :
    -c ≤ n.tdiv k ∧ n.tdiv k < c := by
  have habs := Int.natAbs_tdiv_le_natAbs n k
  by_cases hsign : 0 ≤ n
  · omega
  · have hneg : (-n).tdiv k = -n.tdiv k := Int.neg_tdiv n k
    have hnonneg : 0 ≤ (-n).tdiv k := Int.tdiv_nonneg (by omega) (Int.natCast_nonneg k)
    omega

/-- Truncating to a multiple does not leave it either. -/
theorem tdiv_mul_mem {n c : Int} (k : Nat) (h : -c ≤ n ∧ n < c) :
    -c ≤ n.tdiv k * k ∧ n.tdiv k * k < c := by
  have habs : (n.tdiv k * k).natAbs ≤ n.natAbs := by
    rw [Int.natAbs_mul, Int.natAbs_tdiv]
    exact Nat.div_mul_le_self _ _
  by_cases hsign : 0 ≤ n
  · omega
  · have hneg : (-n).tdiv k = -n.tdiv k := Int.neg_tdiv n k
    have hnonneg : 0 ≤ (-n).tdiv k * k :=
      Int.mul_nonneg (Int.tdiv_nonneg (by omega) (Int.natCast_nonneg k)) (Int.natCast_nonneg k)
    rw [hneg, Int.neg_mul] at hnonneg
    omega

/-- A lower bound of a truncated quotient, from zero downwards. -/
theorem le_tdiv_iff {n l k : Int} (hk : 0 < k) (hl : l ≤ 0) :
    l ≤ n.tdiv k ↔ (l - 1) * k < n := by
  by_cases hsign : 0 ≤ n
  · have hnonneg := Int.tdiv_nonneg hsign (Int.le_of_lt hk)
    have hneg : (l - 1) * k < 0 := Int.mul_neg_of_neg_of_pos (by omega) hk
    omega
  · have hquot : n.tdiv k = -((-n) / k) := by
      rw [← Int.tdiv_eq_ediv_of_nonneg (by omega), Int.neg_tdiv, Int.neg_neg]
    have hlt := Int.ediv_lt_iff_lt_mul (a := -n) (b := 1 - l) hk
    have hmul : (1 - l) * k = -((l - 1) * k) := by ring
    rw [hmul] at hlt
    omega

/-- An upper bound of a truncated quotient, above zero. -/
theorem tdiv_lt_iff {n h k : Int} (hk : 0 < k) (hh : 0 < h) :
    n.tdiv k < h ↔ n < h * k := by
  by_cases hsign : 0 ≤ n
  · rw [Int.tdiv_eq_ediv_of_nonneg hsign, Int.ediv_lt_iff_lt_mul hk]
  · have hquot : n.tdiv k = -((-n) / k) := by
      rw [← Int.tdiv_eq_ediv_of_nonneg (by omega), Int.neg_tdiv, Int.neg_neg]
    have hnonneg : 0 ≤ (-n) / k := Int.ediv_nonneg (by omega) (Int.le_of_lt hk)
    have hpos : 0 < h * k := Int.mul_pos hh hk
    omega

/-- Two's-complement truncation to 32 bits: what a cast with `as` keeps of a number. -/
def I32.wrap (n : Int) : I32 :=
  ⟨(n + 0x80000000) % 0x100000000 - 0x80000000, by omega, by omega⟩

/-- Two's-complement truncation to 64 bits. -/
def I64.wrap (n : Int) : I64 :=
  ⟨(n + 0x8000000000000000) % 0x10000000000000000 - 0x8000000000000000, by omega, by omega⟩

/-- Truncation to 32 bits. -/
def U32.wrap (n : Int) : U32 :=
  ⟨n % 0x100000000, by omega, by omega⟩

/-- Two's-complement truncation to 128 bits. -/
def I128.wrap (n : Int) : I128 :=
  ⟨(n + 0x80000000000000000000000000000000) % 0x100000000000000000000000000000000 -
    0x80000000000000000000000000000000, by omega, by omega⟩

theorem I32.wrap_val_of_mem {n : Int} (hlo : -0x80000000 ≤ n) (hhi : n < 0x80000000) :
    (I32.wrap n).val = n := by
  simp only [I32.wrap]
  omega

theorem I64.wrap_val_of_mem {n : Int} (hlo : -0x8000000000000000 ≤ n)
    (hhi : n < 0x8000000000000000) :
    (I64.wrap n).val = n := by
  simp only [I64.wrap]
  omega

theorem U32.wrap_val_of_mem {n : Int} (hlo : 0 ≤ n) (hhi : n < 0x100000000) :
    (U32.wrap n).val = n := by
  simp only [U32.wrap]
  omega

theorem I128.wrap_val_of_mem {n : Int} (hlo : -0x80000000000000000000000000000000 ≤ n)
    (hhi : n < 0x80000000000000000000000000000000) :
    (I128.wrap n).val = n := by
  simp only [I128.wrap]
  omega

/-- Clamp to 128 bits, the way a float-to-integer cast saturates. -/
def I128.saturate (n : Int) : I128 :=
  (Ranged.tryFrom _ _ n).getD
    (if n < 0 then ⟨-0x80000000000000000000000000000000, by decide, by decide⟩
     else ⟨0x80000000000000000000000000000000 - 1, by decide, by decide⟩)

/-- Clamp to 64 bits, the way a float-to-integer cast saturates. -/
def I64.saturate (n : Int) : I64 :=
  (Ranged.tryFrom _ _ n).getD
    (if n < 0 then ⟨-0x8000000000000000, by decide, by decide⟩
     else ⟨0x8000000000000000 - 1, by decide, by decide⟩)

end MachineInt
