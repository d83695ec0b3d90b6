import VgiCbor.Lib.BigEndian
import VgiCbor.Core.Value

/-!
# Arbitrary-precision integers

CBOR's native integers span `[-2^64, 2^64)`.  Anything wider rides as a bignum:
tag 2 for a non-negative value, tag 3 for a negative one, each wrapping a
big-endian byte string.  A tag-3 payload `n` denotes `-1 - n`.
-/

namespace VgiCbor.Bignum

open MachineInt BigEndian

/-- Big-endian bytes of `n`, with leading zero bytes removed.  Zero keeps one byte. -/
def trimBe (n : Nat) : Bytes :=
  let bytes := toBytes 16 n
  let first := (bytes.findIdx? (· != 0)).getD (bytes.length - 1)
  bytes.drop first

/-- Big-endian byte string → `u128`.  Leading zero bytes do not count; what is left must fit
16 bytes, otherwise the result is `none`. -/
def beToU128 (bytes : Bytes) : Option Nat :=
  let start := (bytes.findIdx? (· != 0)).getD bytes.length
  let significant := bytes.drop start
  if significant.length > 16 then none
  else some (ofBytes (List.replicate (16 - significant.length) 0 ++ significant))

/-- The narrowest CBOR integer that holds an `i128`: a native integer where one can, else a
bignum under tag 2 or 3 with a minimal magnitude. -/
def toValue (n : I128) : Value :=
  match (Ranged.tryFrom _ _ n.val : Option Integer) with
  | some i => .integer i
  | none =>
      -- Outside the native range: tag 3 stores `-1 - n`.
      if 0 ≤ n.val then .tag 2 (.bytes (trimBe n.val.toNat))
      else .tag 3 (.bytes (trimBe (-1 - n.val).toNat))

/-- Decode a CBOR integer or bignum back to `i128`.  Other values, and bignums wider than 128
bits with their sign, give `none`. -/
def fromValue : Value → Option I128
  | .integer i => some i.widen
  | .tag 2 (.bytes b) => (beToU128 b).bind fun m => Ranged.tryFrom _ _ m
  | .tag 3 (.bytes b) =>
      (beToU128 b).bind fun m => (Ranged.tryFrom _ _ m : Option I128).bind fun m =>
        Ranged.tryFrom _ _ (-1 - m.val)
  | _ => none

private theorem take_findIdx?_zero (bytes : Bytes) (d : Nat)
    (hd : bytes.findIdx? (· != 0) = none → ∀ b ∈ bytes.take d, b = 0) :
    ∀ b ∈ bytes.take ((bytes.findIdx? (· != 0)).getD d), b = 0 := by
  intro b hb
  cases hfind : bytes.findIdx? (· != 0) with
  | none =>
      rw [hfind] at hb
      exact hd hfind b hb
  | some i =>
      rw [hfind, Option.getD_some] at hb
      obtain ⟨hi, -, hbefore⟩ := List.findIdx?_eq_some_iff_getElem.1 hfind
      obtain ⟨j, hj, rfl⟩ := List.mem_iff_getElem.1 hb
      rw [List.getElem_take]
      have hlt : j < i := by
        rw [List.length_take] at hj
        omega
      simpa using hbefore j hlt

private theorem all_zero_of_findIdx? {bytes : Bytes} (h : bytes.findIdx? (· != 0) = none) :
    ∀ b ∈ bytes, b = 0 := by
  intro b hb
  simpa using (List.findIdx?_eq_none_iff.1 h) b hb

/-- Trimming keeps the number. -/
theorem ofBytes_trimBe {n : Nat} (h : n < 0x100000000000000000000000000000000) :
    ofBytes (trimBe n) = n := by
  have hzeros := take_findIdx?_zero (toBytes 16 n) ((toBytes 16 n).length - 1)
    fun hnone b hb => all_zero_of_findIdx? hnone b (List.mem_of_mem_take hb)
  rw [trimBe, ofBytes_drop_zeros hzeros]
  exact ofBytes_toBytes_of_lt h

theorem length_trimBe_le (n : Nat) : (trimBe n).length ≤ 16 := by
  simp [trimBe]

/-- Leading zeros notwithstanding, up to 16 bytes read as the number they denote.  The bound
is on what is left after trimming. -/
theorem beToU128_of_length_le {bytes : Bytes} (h : bytes.length ≤ 16) :
    beToU128 bytes = some (ofBytes bytes) := by
  have hzeros := take_findIdx?_zero bytes bytes.length
    fun hnone b hb => all_zero_of_findIdx? hnone b (List.mem_of_mem_take hb)
  unfold beToU128
  simp only [List.length_drop]
  rw [if_neg (by omega), ofBytes_zeros_append, ofBytes_drop_zeros hzeros]

/-- Any byte string below `2 ^ 128` reads as the number it denotes. -/
theorem beToU128_of_lt {bytes : Bytes} (h : ofBytes bytes < 0x100000000000000000000000000000000) :
    beToU128 bytes = some (ofBytes bytes) := by
  have hzeros := take_findIdx?_zero bytes bytes.length
    fun hnone b hb => all_zero_of_findIdx? hnone b (List.mem_of_mem_take hb)
  have hsignificant :
      (bytes.drop ((bytes.findIdx? (· != 0)).getD bytes.length)).length ≤ 16 := by
    cases hfind : bytes.findIdx? (· != 0) with
    | none => rw [Option.getD_none, List.drop_length]; exact Nat.zero_le _
    | some i =>
        obtain ⟨hi, hne, -⟩ := List.findIdx?_eq_some_iff_getElem.1 hfind
        rw [hfind, Option.getD_some] at hzeros
        have hdrop := ofBytes_drop_zeros hzeros
        rw [Option.getD_some, List.drop_eq_getElem_cons hi]
        rw [List.drop_eq_getElem_cons hi] at hdrop
        exact length_le_of_ofBytes_lt (by simpa using hne) (by rw [hdrop]; exact h)
  unfold beToU128
  simp only
  rw [if_neg (by omega), ofBytes_zeros_append, ofBytes_drop_zeros hzeros]

theorem beToU128_trimBe {n : Nat} (h : n < 0x100000000000000000000000000000000) :
    beToU128 (trimBe n) = some n := by
  rw [beToU128_of_length_le (length_trimBe_le n), ofBytes_trimBe h]

/-- A tag-2 bignum reads as its magnitude. -/
theorem fromValue_tag2 {b : Bytes} {m : Nat} (h : beToU128 b = some m) :
    fromValue (.tag 2 (.bytes b)) = Ranged.tryFrom _ _ m := by
  rw [fromValue, h, Option.bind_some]

/-- A tag-3 bignum with magnitude `m` reads as `-1 - m`. -/
theorem fromValue_tag3 {b : Bytes} {m : Nat} (h : beToU128 b = some m) {x : I128}
    (hx : x.val = m) : fromValue (.tag 3 (.bytes b)) = Ranged.tryFrom _ _ (-1 - x.val) := by
  have htry : (Ranged.tryFrom _ _ (m : Int) : Option I128) = some x :=
    Ranged.tryFrom_eq_some_iff.2 hx
  rw [fromValue, h, Option.bind_some, htry, Option.bind_some]

/-- Decoding undoes the narrowest encoding, for every `i128`: whichever of the three forms was
picked. -/
@[simp] theorem fromValue_toValue (n : I128) : fromValue (toValue n) = some n := by
  have hge := n.ge
  have hlt := n.lt
  unfold toValue
  cases htry : (Ranged.tryFrom _ _ n.val : Option Integer) with
  | some i =>
      have hval : i.val = n.val := Ranged.tryFrom_eq_some_iff.1 htry
      show some i.widen = some n
      rw [Option.some.injEq]
      exact Ranged.ext_val hval
  | none =>
      by_cases hsign : 0 ≤ n.val
      · have hcast : n.val = (n.val.toNat : Int) := (Int.toNat_of_nonneg hsign).symm
        show fromValue (if 0 ≤ n.val then _ else _) = some n
        rw [if_pos hsign, fromValue_tag2 (beToU128_trimBe (by omega)),
          Ranged.tryFrom_eq_some_iff]
        exact hcast
      · have hcast : -1 - n.val = ((-1 - n.val).toNat : Int) :=
          (Int.toNat_of_nonneg (by omega)).symm
        have hx : ∃ x : I128, x.val = -1 - n.val := ⟨⟨-1 - n.val, by omega, by omega⟩, rfl⟩
        obtain ⟨x, hx⟩ := hx
        show fromValue (if 0 ≤ n.val then _ else _) = some n
        rw [if_neg hsign, fromValue_tag3 (beToU128_trimBe (by omega)) (hx.trans hcast),
          Ranged.tryFrom_eq_some_iff, hx]
        omega

/-! ## The integer a bignum denotes -/

theorem beToU128_of_le {bytes : Bytes} (h : 0x100000000000000000000000000000000 ≤ ofBytes bytes) :
    beToU128 bytes = none := by
  have hzeros := take_findIdx?_zero bytes bytes.length
    fun hnone b hb => all_zero_of_findIdx? hnone b (List.mem_of_mem_take hb)
  have hdrop := ofBytes_drop_zeros hzeros
  unfold beToU128
  simp only
  rw [if_pos]
  by_contra hshort
  -- Sixteen bytes hold no number that large.
  have hlt := ofBytes_lt (bytes.drop ((bytes.findIdx? (· != 0)).getD bytes.length))
  have hpow := Nat.pow_le_pow_right (show 0 < 256 by decide) (Nat.not_lt.1 hshort)
  rw [hdrop] at hlt
  omega

private theorem drop_findIdx?_eq_cons {bytes : Bytes} {i : Nat}
    (h : bytes.findIdx? (· != 0) = some i) : ∃ b rest, bytes.drop i = b :: rest ∧ b ≠ 0 := by
  obtain ⟨hi, hne, -⟩ := List.findIdx?_eq_some_iff_getElem.1 h
  exact ⟨_, _, List.drop_eq_getElem_cons hi, by simpa using hne⟩

/-- Trimming leaves no zero byte in front of a positive number, which is what makes the
encoding the narrowest one. -/
theorem trimBe_eq_cons {n : Nat} (hpos : 0 < n) (h : n < 0x100000000000000000000000000000000) :
    ∃ b rest, trimBe n = b :: rest ∧ b ≠ 0 := by
  have hnumber : ofBytes (toBytes 16 n) = n := ofBytes_toBytes_of_lt h
  unfold trimBe
  generalize toBytes 16 n = bytes at hnumber ⊢
  dsimp only
  cases hfind : bytes.findIdx? (· != 0) with
  | some i => exact drop_findIdx?_eq_cons hfind
  | none =>
      have hzeros := ofBytes_drop_zeros (k := bytes.length) fun b hb =>
        all_zero_of_findIdx? hfind b (List.mem_of_mem_take hb)
      rw [List.drop_length, ofBytes_nil, hnumber] at hzeros
      omega

/-- The range of CBOR's native integers. -/
def Native (n : I128) : Prop := -0x10000000000000000 ≤ n.val ∧ n.val < 0x10000000000000000

theorem toValue_native_iff (n : I128) : (∃ i, toValue n = .integer i) ↔ Native n := by
  unfold toValue Native
  cases htry : (Ranged.tryFrom _ _ n.val : Option Integer) with
  | some i =>
      have hval : i.val = n.val := Ranged.tryFrom_eq_some_iff.1 htry
      have hge := i.ge
      have hlt := i.lt
      exact iff_of_true ⟨i, rfl⟩ (by omega)
  | none =>
      refine iff_of_false ?_ (Ranged.tryFrom_eq_none_iff.1 htry)
      rintro ⟨i, hi⟩
      dsimp only at hi
      split_ifs at hi

/-- Outside the native range the tag is the sign, and the bytes are minimal: none in front is
zero, and they denote the magnitude. -/
theorem toValue_wide {n : I128} (h : ¬ Native n) :
    ∃ b rest, b ≠ 0 ∧
      toValue n = .tag (if 0 ≤ n.val then 2 else 3) (.bytes (b :: rest)) := by
  have hge := n.ge
  have hlt := n.lt
  have htry : (Ranged.tryFrom _ _ n.val : Option Integer) = none :=
    Ranged.tryFrom_eq_none_iff.2 h
  unfold Native at h
  unfold toValue
  rw [htry]
  dsimp only
  by_cases hsign : 0 ≤ n.val
  · obtain ⟨b, rest, htrim, hb⟩ := @trimBe_eq_cons n.val.toNat (by omega) (by omega)
    exact ⟨b, rest, hb, by rw [if_pos hsign, if_pos hsign, htrim]⟩
  · obtain ⟨b, rest, htrim, hb⟩ := @trimBe_eq_cons (-1 - n.val).toNat (by omega) (by omega)
    exact ⟨b, rest, hb, by rw [if_neg hsign, if_neg hsign, htrim]⟩

/-- A tag-2 bignum denotes its magnitude, as far as 128 bits reach. -/
theorem fromValue_tag2_val (b : Bytes) :
    (fromValue (.tag 2 (.bytes b))).map Ranged.val =
      if ofBytes b < 0x80000000000000000000000000000000 then some (ofBytes b : Int) else none := by
  by_cases hsmall : ofBytes b < 0x100000000000000000000000000000000
  · rw [fromValue_tag2 (beToU128_of_lt hsmall)]
    split_ifs with hfits
    · rw [Ranged.tryFrom_of_mem (by omega) (by omega), Option.map_some]
    · rw [Ranged.tryFrom_eq_none_iff.2 (by omega), Option.map_none]
  · rw [if_neg (by omega), fromValue, beToU128_of_le (by omega), Option.bind_none, Option.map_none]

/-- A tag-3 bignum denotes the complement of its magnitude, just as far. -/
theorem fromValue_tag3_val (b : Bytes) :
    (fromValue (.tag 3 (.bytes b))).map Ranged.val =
      if ofBytes b < 0x80000000000000000000000000000000 then some (-1 - (ofBytes b : Int))
      else none := by
  by_cases hfits : ofBytes b < 0x80000000000000000000000000000000
  · have hread := @fromValue_tag3 b _ (beToU128_of_lt (by omega))
      ⟨ofBytes b, by omega, by omega⟩ rfl
    rw [hread, Ranged.tryFrom_of_mem (by dsimp only; omega) (by dsimp only; omega), if_pos hfits,
      Option.map_some]
  · rw [if_neg hfits, fromValue]
    by_cases hsmall : ofBytes b < 0x100000000000000000000000000000000
    · have htry : (Ranged.tryFrom _ _ (ofBytes b : Int) : Option I128) = none :=
        Ranged.tryFrom_eq_none_iff.2 (by omega)
      rw [beToU128_of_lt hsmall, Option.bind_some, htry, Option.bind_none, Option.map_none]
    · rw [beToU128_of_le (by omega), Option.bind_none, Option.map_none]

/-! ## In an overflow-checked build

The conversions with every step that can fail in such a build: `none` is a panic. -/

/-- `a - b` on `usize`. -/
def usizeSub (a b : Nat) : Option Nat := if b ≤ a then some (a - b) else none

/-- `&bytes[start..]` -/
def sliceFrom (bytes : Bytes) (start : Nat) : Option Bytes :=
  if start ≤ bytes.length then some (bytes.drop start) else none

/-- `buf[start..].copy_from_slice(bytes)`, which insists on equal lengths.  A difference is a
panic of the standard library. -/
def copyFromSlice (buf : Bytes) (start : Nat) (bytes : Bytes) : Option Bytes :=
  (sliceFrom buf start).bind fun target =>
    if target.length = bytes.length then some (buf.take start ++ bytes) else none

/-- `n as u128` -/
def asU128 (n : I128) : Nat := (n.val % 0x100000000000000000000000000000000).toNat

def trimBeChecked (n : Nat) : Option Bytes :=
  let bytes := toBytes 16 n
  (usizeSub bytes.length 1).bind fun last =>
    sliceFrom bytes ((bytes.findIdx? (· != 0)).getD last)

def beToU128Checked (bytes : Bytes) : Option (Option Nat) :=
  let start := (bytes.findIdx? (· != 0)).getD bytes.length
  (sliceFrom bytes start).bind fun significant =>
    if significant.length > 16 then some none
    else
      (usizeSub 16 significant.length).bind fun start =>
        (copyFromSlice (List.replicate 16 0) start significant).map fun buf => some (ofBytes buf)

def toValueChecked (n : I128) : Option Value :=
  match (Ranged.tryFrom _ _ n.val : Option Integer) with
  | some i => some (.integer i)
  | none =>
      if 0 ≤ n.val then (trimBeChecked (asU128 n)).map fun b => .tag 2 (.bytes b)
      else
        (Ranged.tryFrom _ _ (-1 - n.val) : Option I128).bind fun m =>
          (trimBeChecked (asU128 m)).map fun b => .tag 3 (.bytes b)

def fromValueChecked : Value → Option (Option I128)
  | .integer i => some (some i.widen)
  | .tag 2 (.bytes b) => (beToU128Checked b).map fun m => m.bind fun m => Ranged.tryFrom _ _ m
  | .tag 3 (.bytes b) =>
      (beToU128Checked b).map fun m => m.bind fun m =>
        (Ranged.tryFrom _ _ m : Option I128).bind fun m => Ranged.tryFrom _ _ (-1 - m.val)
  | _ => some none

private theorem getD_findIdx?_le {bytes : Bytes} {d : Nat} (hd : d ≤ bytes.length) :
    (bytes.findIdx? (· != 0)).getD d ≤ bytes.length := by
  cases hfind : bytes.findIdx? (· != 0) with
  | none => exact hd
  | some i =>
      obtain ⟨hi, -⟩ := List.findIdx?_eq_some_iff_getElem.1 hfind
      exact Nat.le_of_lt hi

theorem trimBeChecked_eq (n : Nat) : trimBeChecked n = some (trimBe n) := by
  have hlen : (toBytes 16 n).length = 16 := toBytes_length 16 n
  unfold trimBeChecked trimBe
  simp only
  rw [usizeSub, if_pos (by omega), Option.bind_some, sliceFrom,
    if_pos (getD_findIdx?_le (by omega))]

theorem beToU128Checked_eq (bytes : Bytes) : beToU128Checked bytes = some (beToU128 bytes) := by
  unfold beToU128Checked beToU128
  simp only
  rw [sliceFrom, if_pos (getD_findIdx?_le le_rfl), Option.bind_some]
  split_ifs with hlong
  · rfl
  · -- The significant bytes fill the buffer to its end.
    have hfills (significant : Bytes) (hshort : significant.length ≤ 16) :
        copyFromSlice (List.replicate 16 0) (16 - significant.length) significant =
          some (List.replicate (16 - significant.length) 0 ++ significant) := by
      have hslice : sliceFrom (List.replicate 16 0) (16 - significant.length) =
          some (List.replicate significant.length 0) := by
        rw [sliceFrom, if_pos (by simp), List.drop_replicate, Nat.sub_sub_self hshort]
      rw [copyFromSlice, hslice, Option.bind_some, if_pos (by simp), List.take_replicate,
        Nat.min_eq_left (by omega)]
    rw [usizeSub, if_pos (by omega), Option.bind_some, hfills _ (by omega), Option.map_some]

theorem toValueChecked_eq (n : I128) : toValueChecked n = some (toValue n) := by
  have hge := n.ge
  have hlt := n.lt
  unfold toValueChecked toValue
  cases (Ranged.tryFrom _ _ n.val : Option Integer) with
  | some i => rfl
  | none =>
      dsimp only
      have hcast {m : I128} (hm : 0 ≤ m.val) : asU128 m = m.val.toNat := by
        have hm' := m.lt
        rw [asU128, Int.emod_eq_of_lt hm (by omega)]
      split_ifs with hsign
      · rw [hcast hsign, trimBeChecked_eq, Option.map_some]
      · rw [Ranged.tryFrom_of_mem (by omega) (by omega), Option.bind_some,
          hcast (by dsimp only; omega), trimBeChecked_eq, Option.map_some]

theorem fromValueChecked_eq (v : Value) : fromValueChecked v = some (fromValue v) := by
  unfold fromValueChecked fromValue
  split
  · rfl
  · rw [beToU128Checked_eq]
    rfl
  · rw [beToU128Checked_eq]
    rfl
  · rfl

/-- Every 128-bit integer is read back from its narrowest encoding, a bignum of any length
reads as the integer it denotes where that has 128 bits, and no step of either overflows. -/
theorem bignums_denote :
    (∀ n : I128,
      fromValue (toValue n) = some n ∧
        ((∃ i, toValue n = .integer i) ↔ Native n) ∧
        (Native n ∨ ∃ b rest, b ≠ 0 ∧
          toValue n = .tag (if 0 ≤ n.val then 2 else 3) (.bytes (b :: rest))) ∧
        toValueChecked n = some (toValue n)) ∧
      ∀ b : Bytes,
        ((fromValue (.tag 2 (.bytes b))).map Ranged.val =
          if ofBytes b < 0x80000000000000000000000000000000 then some (ofBytes b : Int)
          else none) ∧
        ((fromValue (.tag 3 (.bytes b))).map Ranged.val =
          if ofBytes b < 0x80000000000000000000000000000000 then some (-1 - (ofBytes b : Int))
          else none) ∧
        fromValueChecked (.tag 2 (.bytes b)) = some (fromValue (.tag 2 (.bytes b))) ∧
        fromValueChecked (.tag 3 (.bytes b)) = some (fromValue (.tag 3 (.bytes b))) := by
  refine ⟨fun n => ⟨fromValue_toValue n, toValue_native_iff n, ?_, toValueChecked_eq n⟩,
    fun b => ⟨fromValue_tag2_val b, fromValue_tag3_val b, fromValueChecked_eq _,
      fromValueChecked_eq _⟩⟩
  by_cases hnative : Native n
  · exact .inl hnative
  · exact .inr (toValue_wide hnative)

end VgiCbor.Bignum
