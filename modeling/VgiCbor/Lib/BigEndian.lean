import Mathlib

/-!
# Big-endian byte strings

`toBytes width n` are the `width` low base-256 digits of `n`, most significant
first; `ofBytes` is the number a byte string denotes.
-/

namespace BigEndian

/-- The number denoted by a byte string, most significant byte first.  The empty string
denotes zero. -/
def ofBytes (bytes : List UInt8) : Nat :=
  bytes.foldl (fun acc b => acc * 256 + b.toNat) 0

/-- The low `width` base-256 digits of `n`, most significant first.  Digits that do not fit
are dropped. -/
def toBytes : Nat → Nat → List UInt8
  | 0, _ => []
  | width + 1, n => toBytes width (n / 256) ++ [UInt8.ofNat n]

@[simp] theorem toBytes_length (width n : Nat) : (toBytes width n).length = width := by
  induction width generalizing n with
  | zero => rfl
  | succ width ih => simp [toBytes, ih]

@[simp] theorem ofBytes_nil : ofBytes [] = 0 := rfl

theorem ofBytes_append_singleton (bytes : List UInt8) (b : UInt8) :
    ofBytes (bytes ++ [b]) = ofBytes bytes * 256 + b.toNat := by
  simp [ofBytes]

private theorem foldl_from (bytes : List UInt8) (start : Nat) :
    bytes.foldl (fun acc b => acc * 256 + b.toNat) start =
      start * 256 ^ bytes.length + ofBytes bytes := by
  induction bytes generalizing start with
  | nil => simp
  | cons b bytes ih =>
      have hstart := ih (start * 256 + b.toNat)
      have hzero := ih (0 * 256 + b.toNat)
      simp only [List.foldl_cons, List.length_cons, ofBytes] at hstart hzero ⊢
      rw [hstart, hzero]
      ring

theorem ofBytes_cons (b : UInt8) (bytes : List UInt8) :
    ofBytes (b :: bytes) = b.toNat * 256 ^ bytes.length + ofBytes bytes := by
  simpa [ofBytes] using foldl_from bytes b.toNat

/-- Writing and reading back keeps the digits that fit. -/
theorem ofBytes_toBytes (width n : Nat) : ofBytes (toBytes width n) = n % 256 ^ width := by
  induction width generalizing n with
  | zero => simp [toBytes, Nat.mod_one]
  | succ width ih =>
      rw [toBytes, ofBytes_append_singleton, ih, Nat.pow_succ, Nat.mul_comm (256 ^ width),
        Nat.mod_mul]
      simp
      omega

theorem ofBytes_toBytes_of_lt {width n : Nat} (h : n < 256 ^ width) :
    ofBytes (toBytes width n) = n := by
  rw [ofBytes_toBytes, Nat.mod_eq_of_lt h]

/-- As many bytes hold no larger number. -/
theorem ofBytes_lt (bytes : List UInt8) : ofBytes bytes < 256 ^ bytes.length := by
  induction bytes with
  | nil => decide
  | cons b bytes ih =>
      have hbyte := b.toNat_lt
      rw [ofBytes_cons, List.length_cons, Nat.pow_succ]
      calc b.toNat * 256 ^ bytes.length + ofBytes bytes
          < b.toNat * 256 ^ bytes.length + 256 ^ bytes.length := by omega
        _ = (b.toNat + 1) * 256 ^ bytes.length := by ring
        _ ≤ 256 * 256 ^ bytes.length := Nat.mul_le_mul_right _ (by omega)
        _ = 256 ^ bytes.length * 256 := by ring

/-- Of two byte strings of one length the one that denotes the smaller number comes first,
whatever stands behind them. -/
theorem compare_append_of_ofBytes_lt {a b : List UInt8} (hlen : a.length = b.length)
    (h : ofBytes a < ofBytes b) (p q : List UInt8) : compare (a ++ p) (b ++ q) = .lt := by
  induction a generalizing b with
  | nil =>
      obtain rfl : b = [] := List.length_eq_zero_iff.1 hlen.symm
      exact absurd h (Nat.lt_irrefl _)
  | cons x a ih =>
      cases b with
      | nil => cases hlen
      | cons y b =>
          have hlen' : a.length = b.length := Nat.succ.inj hlen
          rw [ofBytes_cons, ofBytes_cons, hlen'] at h
          have ha := ofBytes_lt a
          have hb := ofBytes_lt b
          rw [hlen'] at ha
          rw [List.cons_append, List.cons_append, List.compare_cons_cons]
          rcases Nat.lt_trichotomy x.toNat y.toNat with hxy | hxy | hxy
          · rw [Std.compare_eq_lt.2 (UInt8.lt_iff_toNat_lt.2 hxy)]
            rfl
          · rw [hxy] at h
            rw [UInt8.toNat_inj.1 hxy, Std.compare_self, ih hlen' (by omega)]
            rfl
          · -- The first byte would outweigh all others.
            have hle : (y.toNat + 1) * 256 ^ b.length ≤ x.toNat * 256 ^ b.length :=
              Nat.mul_le_mul_right _ hxy
            rw [Nat.add_mul, Nat.one_mul] at hle
            omega

/-- A number below `256 ^ k` has at most `k` bytes behind its leading zeros, so a test of the
length is a test of the number. -/
theorem length_le_of_ofBytes_lt {b : UInt8} {bytes : List UInt8} {k : Nat} (hb : b ≠ 0)
    (h : ofBytes (b :: bytes) < 256 ^ k) : (b :: bytes).length ≤ k := by
  have hpos : 1 ≤ b.toNat := by
    rw [Nat.one_le_iff_ne_zero]
    exact fun hzero => hb (UInt8.toNat_inj.1 hzero)
  rw [ofBytes_cons] at h
  have hle : 256 ^ bytes.length ≤ b.toNat * 256 ^ bytes.length := Nat.le_mul_of_pos_left _ hpos
  have hlt : 256 ^ bytes.length < 256 ^ k := by omega
  exact (Nat.pow_lt_pow_iff_right (by omega)).1 hlt

/-- Leading zero bytes do not change the number. -/
theorem ofBytes_zeros_append (k : Nat) (bytes : List UInt8) :
    ofBytes (List.replicate k 0 ++ bytes) = ofBytes bytes := by
  induction k with
  | zero => rfl
  | succ k ih => rw [List.replicate_succ, List.cons_append, ofBytes_cons, ih]; simp

/-- Dropping leading zero bytes does not change the number. -/
theorem ofBytes_drop_zeros {bytes : List UInt8} {k : Nat} (h : ∀ b ∈ bytes.take k, b = 0) :
    ofBytes (bytes.drop k) = ofBytes bytes := by
  have hzeros : bytes.take k = List.replicate (bytes.take k).length 0 :=
    List.eq_replicate_iff.2 ⟨rfl, h⟩
  conv_rhs => rw [← List.take_append_drop k bytes, hzeros]
  exact (ofBytes_zeros_append _ _).symm

end BigEndian
