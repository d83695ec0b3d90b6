import VgiCbor.Core.Json
import VgiCbor.Core.Msgpack

/-!
# Instants on the MessagePack wire

The reserved timestamp `ext` has three payload layouts.  An instant with fewer than
`10^9` nanoseconds is written in the shortest of them that holds it, and comes back as
the same instant, both as a payload and as a CBOR value (`timestamp_round_trip`).
-/

namespace VgiCbor.Msgpack

open MachineInt BigEndian Binary64

/-! ## Payloads -/

/-- What a payload of four bytes can hold: whole seconds within 32 bits. -/
theorem decodeTimestamp_four {data : Bytes} (hlen : data.length = 4) {secs : I64} {nanos : U32}
    (h : decodeTimestamp data = some (secs, nanos)) :
    nanos.val = 0 ∧ 0 ≤ secs.val ∧ secs.val < 0x100000000 := by
  have hlt := ofBytes_lt data
  rw [hlen] at hlt
  simp only [decodeTimestamp, hlen, Option.some.injEq, Prod.mk.injEq] at h
  obtain ⟨rfl, rfl⟩ := h
  rw [I64.wrap_val_of_mem (by omega) (by omega)]
  exact ⟨rfl, by omega, by omega⟩

/-- What a payload of eight bytes can hold: seconds within 34 bits. -/
theorem decodeTimestamp_eight {data : Bytes} (hlen : data.length = 8) {secs : I64} {nanos : U32}
    (h : decodeTimestamp data = some (secs, nanos)) :
    0 ≤ secs.val ∧ secs.val < 0x400000000 := by
  simp only [decodeTimestamp, hlen, Option.some.injEq, Prod.mk.injEq] at h
  obtain ⟨rfl, -⟩ := h
  have hlow : (ofBytes data &&& 0x3ffffffff) < 0x400000000 :=
    Nat.lt_of_le_of_lt Nat.and_le_right (by decide)
  rw [I64.wrap_val_of_mem (by omega) (by omega)]
  exact ⟨by omega, by omega⟩

/-- There are no payloads but of these three lengths. -/
theorem length_of_decodeTimestamp {data : Bytes} {instant : I64 × U32}
    (h : decodeTimestamp data = some instant) :
    data.length = 4 ∨ data.length = 8 ∨ data.length = 12 := by
  unfold decodeTimestamp at h
  split at h
  · next hlen => exact .inl hlen
  · next hlen => exact .inr (.inl hlen)
  · next hlen => exact .inr (.inr hlen)
  · cases h

/-- The encoder takes the shortest payload that holds the instant. -/
theorem encodeTimestamp_shortest {data : Bytes} {secs : I64} {nanos : U32}
    (h : decodeTimestamp data = some (secs, nanos)) :
    (encodeTimestamp secs nanos).length ≤ data.length := by
  unfold encodeTimestamp
  split_ifs with hshort hmedium
  · rw [toBytes_length]
    rcases length_of_decodeTimestamp h with hlen | hlen | hlen <;> omega
  · rw [toBytes_length]
    rcases length_of_decodeTimestamp h with hlen | hlen | hlen
    · exact absurd (decodeTimestamp_four hlen h) hshort
    · omega
    · omega
  · rw [List.length_append, toBytes_length, toBytes_length]
    rcases length_of_decodeTimestamp h with hlen | hlen | hlen
    · exact absurd (decodeTimestamp_four hlen h) hshort
    · exact absurd (decodeTimestamp_eight hlen h) hmedium
    · omega

/-! ## Values -/

/-- The nanoseconds of a tag-1 payload are a fraction of a second. -/
theorem instantParts_nanos {fp : FloatOps} {inner : Value} {secs : I64} {nanos : U32}
    (h : instantParts fp inner = some (secs, nanos)) : nanos.val < 1000000000 := by
  unfold instantParts at h
  split at h
  · obtain ⟨total, -, h⟩ := Option.bind_eq_some_iff.1 h
    obtain ⟨s, -, h⟩ := Option.map_eq_some_iff.1 h
    cases h
    rw [U32.wrap_val_of_mem (by omega) (by omega)]
    omega
  · split at h
    · obtain ⟨s, -, h⟩ := Option.map_eq_some_iff.1 h
      cases h
      decide
    · split_ifs at h
      cases h
      rw [U32.wrap_val_of_mem (by omega) (by omega)]
      omega
    · cases h

/-- The instant as a count of nanoseconds. -/
def totalNanos (secs : I64) (nanos : U32) : I128 :=
  ⟨secs.val * 1000000000 + nanos.val, by have := secs.ge; have := nanos.ge; omega,
    by have := secs.lt; have := nanos.lt; omega⟩

/-- The count of nanoseconds does not overflow. -/
theorem wrap_totalNanos (secs : I64) (nanos : U32) :
    I128.wrap (secs.val * 1000000000 + nanos.val) = totalNanos secs nanos :=
  Ranged.ext_val (I128.wrap_val_of_mem (totalNanos secs nanos).ge (totalNanos secs nanos).lt)

def nanosExponent : Integer := Integer.ofI64 (I64.wrap (-9))

/-- The decimal fraction `[-9, total]`. -/
theorem decimalParts_nanos (total : I128) :
    decimalParts (.tag 4 (.array [.integer nanosExponent, Bignum.toValue total])) =
      some (total, ⟨-9, by decide, by decide⟩) := by
  have hexponent : Bignum.fromValue (.integer nanosExponent) =
      some ⟨-9, by decide, by decide⟩ := rfl
  have htry : (Ranged.tryFrom _ _ (-9) : Option I32) = some ⟨-9, by decide, by decide⟩ := rfl
  simp only [decimalParts, if_true]
  rw [hexponent, Option.bind_some, htry, Option.bind_some, Bignum.fromValue_toValue,
    Option.map_some]

/-- A count of nanoseconds needs no scaling. -/
theorem scaleToNanos_nanos (total : I128) :
    scaleToNanos total ⟨-9, by decide, by decide⟩ = some total := by
  have hfactor : I128.checkedPow10 0 = some ⟨1, by decide, by decide⟩ := rfl
  have hshift : (I32.wrap (-9 + 9)).val = 0 := by decide
  simp only [scaleToNanos, hshift, le_refl, if_true, Int.toNat_zero, hfactor]
  rw [Option.bind_some, I128.checkedMul, Ranged.tryFrom_eq_some_iff, Int.mul_one]

/-- The content of the tag-1 value of an instant. -/
def instantContent (secs : I64) (nanos : U32) : Value :=
  if nanos.val = 0 then .integer (Integer.ofI64 secs)
  else .tag 4 (.array [.integer nanosExponent, Bignum.toValue (totalNanos secs nanos)])

theorem instantToCbor_eq (secs : I64) (nanos : U32) :
    instantToCbor secs nanos = .tag 1 (instantContent secs nanos) := by
  rw [instantToCbor, wrap_totalNanos]
  rfl

/-- The content of an instant reads back as the instant. -/
theorem instantParts_content (fp : FloatOps) (secs : I64) {nanos : U32}
    (hnanos : nanos.val < 1000000000) :
    instantParts fp (instantContent secs nanos) = some (secs, nanos) := by
  unfold instantContent
  split_ifs with hwhole
  · have htry : (Ranged.tryFrom _ _ secs.val : Option I64) = some secs := Ranged.tryFrom_val secs
    show Option.map _ (Ranged.tryFrom _ _ secs.val : Option I64) = _
    rw [htry, Option.map_some, Option.some.injEq, Prod.mk.injEq]
    exact ⟨rfl, Ranged.ext_val hwhole.symm⟩
  · have hnonneg := nanos.ge
    -- Euclidean division takes the total apart again, before the epoch too.
    have hdiv : (totalNanos secs nanos).val / 1000000000 = secs.val := by
      show (secs.val * 1000000000 + nanos.val) / 1000000000 = _
      omega
    have hmod : (totalNanos secs nanos).val % 1000000000 = nanos.val := by
      show (secs.val * 1000000000 + nanos.val) % 1000000000 = _
      omega
    simp only [instantParts, decimalParts_nanos, scaleToNanos_nanos, Option.bind_some, hdiv, hmod,
      Ranged.tryFrom_val, Option.map_some, Option.some.injEq, Prod.mk.injEq, true_and]
    exact Ranged.ext_val (U32.wrap_val_of_mem nanos.ge nanos.lt)

/-- Every instant survives: its payload reads back, no shorter payload could hold it, and
the value it becomes is the same instant. -/
theorem timestamp_round_trip (fp : FloatOps) (secs : I64) (nanos : U32)
    (hnanos : nanos.val < 1000000000) :
    decodeTimestamp (encodeTimestamp secs nanos) = some (secs, nanos) ∧
      (∀ data, decodeTimestamp data = some (secs, nanos) →
        (encodeTimestamp secs nanos).length ≤ data.length) ∧
      ∃ inner, mpToCbor fp (.ext TIMESTAMP_EXT (encodeTimestamp secs nanos)) = .tag 1 inner ∧
        instantParts fp inner = some (secs, nanos) := by
  refine ⟨decodeTimestamp_encodeTimestamp secs hnanos, fun data h => encodeTimestamp_shortest h,
    instantContent secs nanos, ?_, instantParts_content fp secs hnanos⟩
  rw [mpToCbor, extToCbor_timestamp secs hnanos, instantToCbor_eq]

/-- One nanosecond before the epoch. -/
theorem timestamp_round_trip_before_epoch :
    decodeTimestamp (encodeTimestamp (I64.wrap (-1)) (U32.wrap 999999999)) =
        some (I64.wrap (-1), U32.wrap 999999999) ∧
      ∃ inner, mpToCbor Platform.bare.fp (.ext TIMESTAMP_EXT
          (encodeTimestamp (I64.wrap (-1)) (U32.wrap 999999999))) = .tag 1 inner ∧
        instantParts Platform.bare.fp inner = some (I64.wrap (-1), U32.wrap 999999999) := by
  obtain ⟨hpayload, -, hvalue⟩ :=
    timestamp_round_trip Platform.bare.fp (I64.wrap (-1)) (U32.wrap 999999999) (by decide)
  exact ⟨hpayload, hvalue⟩

end VgiCbor.Msgpack
