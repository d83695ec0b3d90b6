import Mathlib

/-!
# Moving a decimal point

An integer times a power of ten, compared with another integer: a non-negative power
multiplies, a negative one divides without remainder.
-/

namespace DecimalScale

/-- Both sides of an equation of scaled integers carry the same power of ten. -/
theorem mul_zpow_eq_iff (m r e s : ℤ) :
    (m : ℚ) * 10 ^ e = r * 10 ^ (-s) ↔ (m : ℚ) * 10 ^ (e + s) = r := by
  have hs : (10 : ℚ) ^ s ≠ 0 := zpow_ne_zero _ (by norm_num)
  rw [zpow_neg, zpow_add₀ (by norm_num), ← mul_assoc, ← div_eq_mul_inv, eq_div_iff hs]

theorem mul_zpow_of_nonneg {k : ℤ} (hk : 0 ≤ k) (m r : ℤ) :
    (m : ℚ) * 10 ^ k = r ↔ m * 10 ^ k.toNat = r := by
  obtain ⟨n, rfl⟩ := Int.eq_ofNat_of_zero_le hk
  rw [Int.toNat_natCast, zpow_natCast]
  norm_cast

theorem mul_zpow_of_neg {k : ℤ} (hk : k < 0) (m r : ℤ) :
    (m : ℚ) * 10 ^ k = r ↔ m = r * 10 ^ (-k).toNat := by
  obtain ⟨n, hn⟩ := Int.eq_ofNat_of_zero_le (show 0 ≤ -k by omega)
  obtain rfl : k = -n := by omega
  have hpow : (10 : ℚ) ^ n ≠ 0 := pow_ne_zero _ (by norm_num)
  rw [neg_neg, Int.toNat_natCast, zpow_neg, zpow_natCast, ← div_eq_mul_inv, div_eq_iff hpow]
  norm_cast

/-- A product with a non-zero factor is at least as large as the power of ten. -/
theorem pow_le_natAbs_mul {m : ℤ} (hm : m ≠ 0) {k n : ℕ} (hk : k ≤ n) :
    10 ^ k ≤ (m * 10 ^ n).natAbs := by
  have hpos : 0 < m.natAbs := Int.natAbs_pos.2 hm
  have hpow : (10 : ℕ) ^ k ≤ 10 ^ n := Nat.pow_le_pow_right (by norm_num) hk
  rw [Int.natAbs_mul, Int.natAbs_pow]
  calc
    10 ^ k ≤ 1 * 10 ^ n := by rw [one_mul]; exact hpow
    _ ≤ m.natAbs * 10 ^ n := Nat.mul_le_mul_right _ hpos

end DecimalScale
