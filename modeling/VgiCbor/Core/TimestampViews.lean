import VgiCbor.Core.MsgpackJson

/-!
# The two views of a timestamp

A timestamp `ext` is shown as an RFC 3339 text in JSON and as a tag-1 value in CBOR.  The
text prints the nanosecond field as digits, the value adds it to the seconds.  The two
name the same instant exactly if the field is less than a second (`views_agree_iff`).
-/

namespace VgiCbor.Msgpack

open MachineInt BigEndian Binary64 Json InstantText

/-- The instant that the JSON view names, in seconds, as it is read back from the text. -/
def shownInstant : Json → Option ℚ
  | .object [("timestamp", .string s)] => readInstant s.toList
  | _ => none

/-- The instant that a tag-1 value carries, in seconds. -/
def carriedInstant : Value → Option ℚ
  | .tag 1 (.integer n) => some n.val
  | .tag 1 (.tag 4 (.array [.integer e, m])) =>
      (Bignum.fromValue m).map fun x => (x.val : ℚ) * 10 ^ e.val
  | _ => none

/-- The nanosecond field of a payload. -/
def nanosField (data : Bytes) : Nat :=
  if data.length = 8 then ofBytes data / 0x400000000
  else if data.length = 12 then ofBytes (data.take 4)
  else 0

/-- The views of a payload name the same instant. -/
def ViewsAgree (fp : FloatOps) (data : Bytes) : Prop :=
  ∃ t : ℚ, shownInstant (extToJson TIMESTAMP_EXT data) = some t ∧
    carriedInstant (mpToCbor fp (.ext TIMESTAMP_EXT data)) = some t

theorem exists_decodeTimestamp {data : Bytes}
    (h : data.length = 4 ∨ data.length = 8 ∨ data.length = 12) :
    ∃ secs nanos, decodeTimestamp data = some (secs, nanos) ∧ nanos.val = nanosField data := by
  rcases h with hlen | hlen | hlen
  · simp only [decodeTimestamp, hlen, nanosField]
    exact ⟨_, _, rfl, rfl⟩
  · have hlt := ofBytes_lt data
    have hshift : ofBytes data >>> 34 = ofBytes data / 0x400000000 :=
      Nat.shiftRight_eq_div_pow _ _
    rw [hlen] at hlt
    simp only [decodeTimestamp, hlen, nanosField, if_true]
    refine ⟨_, _, rfl, ?_⟩
    rw [U32.wrap_val_of_mem (by omega) (by omega), hshift]
  · have hlt := ofBytes_lt (data.take 4)
    rw [List.length_take, hlen, show min 4 12 = 4 by rfl] at hlt
    simp only [decodeTimestamp, hlen, nanosField]
    refine ⟨_, _, rfl, ?_⟩
    rw [U32.wrap_val_of_mem (by omega) (by omega)]
    rfl

/-- The text shows the nanosecond field as digits behind the point. -/
theorem shownInstant_extToJson {data : Bytes} {secs : I64} {nanos : U32}
    (h : decodeTimestamp data = some (secs, nanos)) :
    shownInstant (extToJson TIMESTAMP_EXT data) =
      some ((secs.val : ℚ) + (nanos.val : ℚ) / 10 ^ (padded 9 nanos.val).length) := by
  simp only [extToJson, if_true, h, Json.insert, shownInstant]
  exact readInstant_rfc3339 secs nanos

/-- The value carries the nanosecond field as nanoseconds. -/
theorem carriedInstant_content (secs : I64) (nanos : U32) :
    carriedInstant (.tag 1 (instantContent secs nanos)) =
      some ((secs.val : ℚ) + (nanos.val : ℚ) / 10 ^ 9) := by
  unfold instantContent
  split_ifs with hwhole
  · rw [hwhole]
    simp [carriedInstant]
  · have hexponent : nanosExponent.val = -9 := by decide
    simp only [carriedInstant, Bignum.fromValue_toValue, Option.map_some, totalNanos,
      Option.some.injEq, hexponent]
    push_cast
    ring

theorem carriedInstant_mpToCbor (fp : FloatOps) {data : Bytes} {secs : I64} {nanos : U32}
    (h : decodeTimestamp data = some (secs, nanos)) :
    carriedInstant (mpToCbor fp (.ext TIMESTAMP_EXT data)) =
      some ((secs.val : ℚ) + (nanos.val : ℚ) / 10 ^ 9) := by
  simp only [mpToCbor, extToCbor, if_true, h]
  rw [instantToCbor_eq, carriedInstant_content]

/-- Digits and nanoseconds mean the same exactly below one second: from a second on there is a
tenth digit. -/
theorem fraction_eq_iff (nanos : U32) :
    (nanos.val : ℚ) / 10 ^ (padded 9 nanos.val).length = (nanos.val : ℚ) / 10 ^ 9 ↔
      nanos.val < 1000000000 := by
  have hnonneg := nanos.ge
  rw [padded_of_nonneg hnonneg]
  by_cases hsmall : nanos.val < 1000000000
  · rw [zeroPad_length (by decide) (by omega)]
    exact iff_of_true rfl hsmall
  · have hwide := @lt_zeroPad_length 9 nanos.val.natAbs (by decide) (by omega)
    refine iff_of_false (fun heq => ?_) hsmall
    have hpos : (nanos.val : ℚ) ≠ 0 := by
      have hne : nanos.val ≠ 0 := by omega
      exact_mod_cast hne
    rw [div_eq_mul_inv, div_eq_mul_inv] at heq
    have hpow := inv_injective (mul_left_cancel₀ hpos heq)
    have hlen := pow_right_injective₀ (show (0 : ℚ) < 10 by norm_num) (by norm_num) hpow
    omega

/-- The two views of a timestamp payload name the same instant if and only if its
nanosecond field is less than a second. -/
theorem views_agree_iff (fp : FloatOps) {data : Bytes}
    (hlen : data.length = 4 ∨ data.length = 8 ∨ data.length = 12) :
    ViewsAgree fp data ↔ nanosField data < 1000000000 := by
  obtain ⟨secs, nanos, hdecode, hnanos⟩ := exists_decodeTimestamp hlen
  have hfraction := fraction_eq_iff nanos
  rw [ViewsAgree, shownInstant_extToJson hdecode, carriedInstant_mpToCbor fp hdecode]
  constructor
  · rintro ⟨t, hshown, hcarried⟩
    have heq := Option.some.inj (hshown.trans hcarried.symm)
    have hsmall := hfraction.1 (add_left_cancel heq)
    omega
  · intro hsmall
    refine ⟨_, rfl, ?_⟩
    rw [hfraction.2 (by omega)]

/-- The largest nanosecond field that is a fraction of a second. -/
theorem views_agree_iff_last_nanosecond :
    ViewsAgree Platform.bare.fp [0xee, 0x6b, 0x27, 0xfc, 0, 0, 0, 0] :=
  (views_agree_iff Platform.bare.fp (.inr (.inl rfl))).2 (by decide)

/-- One second after the epoch, if the field is added up; a tenth of a second in the text. -/
def wholeSecond : Bytes := [0xee, 0x6b, 0x28, 0, 0, 0, 0, 0]

theorem views_disagree :
    shownInstant (extToJson TIMESTAMP_EXT wholeSecond) = some (1 / 10) ∧
      carriedInstant (mpToCbor Platform.bare.fp (.ext TIMESTAMP_EXT wholeSecond)) = some 1 := by
  have hdecode : decodeTimestamp wholeSecond = some (I64.wrap 0, U32.wrap 1000000000) := by
    decide
  have hdigits : (padded 9 (U32.wrap 1000000000).val).length = 10 := by decide
  have hsecs : (I64.wrap 0).val = 0 := by decide
  have hnanos : (U32.wrap 1000000000).val = 1000000000 := by decide
  rw [shownInstant_extToJson hdecode, carriedInstant_mpToCbor _ hdecode, hdigits, hsecs, hnanos]
  norm_num

end VgiCbor.Msgpack
