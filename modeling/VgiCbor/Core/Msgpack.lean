import VgiCbor.Core.Bignum

/-!
# The MessagePack mirror

MessagePack has no tags.  An instant (tag 1) crosses as the reserved timestamp
`ext`, a bignum (tags 2 and 3) as an `ext` under its own code; every other tag is
replaced by its content.  `cborToMp` and `mpToCbor` are the two value
conversions.
-/

namespace VgiCbor.Msgpack

open MachineInt BigEndian Binary64

/-- A MessagePack string: text, or bytes that are not valid UTF-8. -/
inductive Utf8String where
  | text (s : String)
  | invalid (b : Bytes)

/-- A MessagePack integer is a `u64` or an `i64`. -/
abbrev MpInteger := Ranged (-0x8000000000000000) 0x10000000000000000

instance : Ranged.Within (-0x8000000000000000) 0x10000000000000000 (-0x10000000000000000)
    0x10000000000000000 :=
  ⟨by decide, by decide⟩

/-- A MessagePack data item (`rmpv::Value`).  Strings need not be UTF-8, and `ext` items carry
a type and bytes. -/
inductive Mp where
  | nil
  | boolean (b : Bool)
  | integer (n : MpInteger)
  | f32 (f : F32)
  | f64 (f : F64)
  | string (s : Utf8String)
  | binary (b : Bytes)
  | array (items : List Mp)
  | map (entries : List (Mp × Mp))
  | ext (ty : I8) (data : Bytes)

namespace Mp

/-- Induction with a hypothesis for every item below an array or map. -/
@[induction_eliminator]
theorem induct {P : Mp → Prop} (nil : P .nil) (boolean : ∀ b, P (.boolean b))
    (integer : ∀ n, P (.integer n)) (f32 : ∀ f, P (.f32 f)) (f64 : ∀ f, P (.f64 f))
    (string : ∀ s, P (.string s)) (binary : ∀ b, P (.binary b))
    (array : ∀ items, (∀ v ∈ items, P v) → P (.array items))
    (map : ∀ entries, (∀ e ∈ entries, P e.1 ∧ P e.2) → P (.map entries))
    (ext : ∀ ty data, P (.ext ty data)) (v : Mp) : P v := by
  refine @Mp.rec P (fun items => ∀ v ∈ items, P v)
    (fun entries => ∀ e ∈ entries, P e.1 ∧ P e.2) (fun e => P e.1 ∧ P e.2)
    nil boolean integer f32 f64 string binary array map ext ?_ ?_ ?_ ?_ ?_ v
  · simp
  · intro item items hitem hitems
    simpa using ⟨hitem, hitems⟩
  · simp
  · intro entry entries hentry hentries e he
    rcases List.mem_cons.1 he with rfl | he
    · exact hentry
    · exact hentries e he
  · intro key val hkey hval
    exact ⟨hkey, hval⟩

mutual

/-- Nesting depth: every array and map is one level. -/
def depth : Mp → Nat
  | .array items => depthItems items + 1
  | .map entries => depthEntries entries + 1
  | _ => 0

def depthItems : List Mp → Nat
  | [] => 0
  | v :: vs => max (depth v) (depthItems vs)

/-- The deepest key or value of a list of entries. -/
def depthEntries : List (Mp × Mp) → Nat
  | [] => 0
  | (k, v) :: es => max (max (depth k) (depth v)) (depthEntries es)

end

end Mp

/-- The reserved extension type for an instant. -/
def TIMESTAMP_EXT : I8 := ⟨-1, by decide, by decide⟩

/-- Tag 2, mirrored as the `ext` code of the same number. -/
def BIGNUM_POS : I8 := I8.ofNat 2

/-- Tag 3, wrapping `-1 - n`. -/
def BIGNUM_NEG : I8 := ⟨3, by decide, by decide⟩

/-! ## Timestamps -/

/-- The narrowest of the three timestamp payloads that holds the instant: four, eight or
twelve bytes. -/
def encodeTimestamp (secs : I64) (nanos : U32) : Bytes :=
  if nanos.val = 0 ∧ 0 ≤ secs.val ∧ secs.val < 0x100000000 then
    toBytes 4 secs.val.toNat
  else if 0 ≤ secs.val ∧ secs.val < 0x400000000 then
    let packed := (nanos.val.toNat <<< 34 % 0x10000000000000000) ||| secs.val.toNat
    toBytes 8 packed
  else
    toBytes 4 nanos.val.toNat ++ toBytes 8 (secs.val % 0x10000000000000000).toNat

/-- Read a timestamp payload of 4, 8 or 12 bytes.  The nanosecond field is taken as it is,
without a check against one second. -/
def decodeTimestamp (data : Bytes) : Option (I64 × U32) :=
  match data.length with
  | 4 => some (I64.wrap (ofBytes data), ⟨0, by decide, by decide⟩)
  | 8 =>
      let v := ofBytes data
      some (I64.wrap ((v &&& 0x0003ffffffff : Nat) : Int), U32.wrap ((v >>> 34 : Nat) : Int))
  | 12 =>
      some (I64.wrap (ofBytes ((data.drop 4).take 8)), U32.wrap (ofBytes (data.take 4)))
  | _ => none

/-- The `(mantissa, exponent)` of a tag-4 decimal fraction, or of the bare
`[exponent, mantissa]` array a tagless format degrades it to. -/
def decimalParts (v : Value) : Option (I128 × I32) :=
  let parts :=
    match v with
    | .tag t (.array parts) => if t = 4 then some parts else none
    | .array parts => some parts
    | _ => none
  match parts with
  | some [exponent, mantissa] =>
      (Bignum.fromValue exponent).bind fun e =>
        (Ranged.tryFrom _ _ e.val : Option I32).bind fun e =>
          (Bignum.fromValue mantissa).map fun m => (m, e)
  | _ => none

/-- `mantissa * 10^exponent` seconds as a whole number of nanoseconds, `none` where the
checked power or product overflows. -/
def scaleToNanos (mantissa : I128) (exponent : I32) : Option I128 :=
  let shift := (I32.wrap (exponent.val + 9)).val
  if 0 ≤ shift then
    (I128.checkedPow10 shift.toNat).bind fun factor => I128.checkedMul mantissa factor
  else
    (I128.checkedPow10 (-shift).toNat).bind fun divisor =>
      Ranged.tryFrom _ _ (mantissa.val.tdiv divisor.val)

def oneBillion : F64 := ⟨0x41CDCD6500000000⟩

/-- Split a tag-1 payload into `(seconds, nanos)`; `none` if it is not numeric. -/
def instantParts (fp : FloatOps) (inner : Value) : Option (I64 × U32) :=
  match decimalParts inner with
  | some (mantissa, exponent) =>
      (scaleToNanos mantissa exponent).bind fun total =>
        (Ranged.tryFrom _ _ (total.val / 1000000000) : Option I64).map fun secs =>
          (secs, U32.wrap (total.val % 1000000000))
  | none =>
      match inner with
      | .integer i =>
          (Ranged.tryFrom _ _ i.val : Option I64).map fun secs =>
            (secs, ⟨0, by decide, by decide⟩)
      | .float f =>
          if f.isFinite then
            let secs := fp.floor f
            let nanos := fp.round (fp.mul (fp.sub f secs) oneBillion)
            some (secs.toI64, U32.wrap (max 0 (min nanos.toI128.val 999999999)))
          else none
      | _ => none

/-! ## The two conversions -/

mutual

/-- Convert a CBOR value into a MessagePack item.  Instants and bignums have a mirror among
the `ext` types; other tags are dropped. -/
def cborToMp (fp : FloatOps) : Value → Mp
  | .null => .nil
  | .bool b => .boolean b
  | .integer i =>
      match (Ranged.tryFrom _ _ i.val : Option MpInteger) with
      | some n => .integer n
      | none => .f64 (fp.ofI128 i.widen)
  | .float f => .f64 f
  | .text s => .string (.text s)
  | .bytes b => .binary b
  | .array items => .array (itemsToMp fp items)
  | .map entries => .map (entriesToMp fp entries)
  | .tag t inner =>
      if t = 1 then
        match instantParts fp inner with
        | some (secs, nanos) => .ext TIMESTAMP_EXT (encodeTimestamp secs nanos)
        | none => cborToMp fp inner
      else if t = 2 ∨ t = 3 then
        -- Dropping these tags would erase the sign.
        match inner with
        | .bytes b => .ext (if t = 2 then BIGNUM_POS else BIGNUM_NEG) b
        | _ => cborToMp fp inner
      else cborToMp fp inner

/-- `items.iter().map(cbor_to_mp)` -/
def itemsToMp (fp : FloatOps) : List Value → List Mp
  | [] => []
  | v :: vs => cborToMp fp v :: itemsToMp fp vs

/-- Convert keys and values of all entries. -/
def entriesToMp (fp : FloatOps) : List (Value × Value) → List (Mp × Mp)
  | [] => []
  | (k, v) :: es => (cborToMp fp k, cborToMp fp v) :: entriesToMp fp es

end

/-- What a timestamp payload becomes: tag 1 over whole seconds, or over a tag-4
decimal fraction when there are nanoseconds. -/
def instantToCbor (secs : I64) (nanos : U32) : Value :=
  let inner :=
    if nanos.val = 0 then .integer (Integer.ofI64 secs)
    else
      .tag 4 (.array [.integer ⟨-9, by decide, by decide⟩,
        Bignum.toValue (I128.wrap (secs.val * 1000000000 + nanos.val))])
  .tag 1 inner

/-- What an `ext` item becomes. -/
def extToCbor (ty : I8) (data : Bytes) : Value :=
  let opaqueExt :=
    if ty = BIGNUM_POS then .tag 2 (.bytes data)
    else if ty = BIGNUM_NEG then .tag 3 (.bytes data)
    else .map [(.text "ext_type", .integer ty.widen), (.text "data", .bytes data)]
  if ty = TIMESTAMP_EXT then
    match decodeTimestamp data with
    | some (secs, nanos) => instantToCbor secs nanos
    | none => opaqueExt
  else opaqueExt

mutual

/-- Convert a MessagePack item into a CBOR value.  The mirrored `ext` types become tags again,
all others a map with their type and their bytes. -/
def mpToCbor (fp : FloatOps) : Mp → Value
  | .nil => .null
  | .boolean b => .bool b
  | .integer n => .integer n.widen
  | .f32 f => .float (fp.widen f)
  | .f64 f => .float f
  | .string (.text s) => .text s
  | .string (.invalid b) => .bytes b
  | .binary b => .bytes b
  | .array items => .array (itemsToCbor fp items)
  | .map entries => .map (entriesToCbor fp entries)
  | .ext ty data => extToCbor ty data

/-- `items.iter().map(mp_to_cbor)` -/
def itemsToCbor (fp : FloatOps) : List Mp → List Value
  | [] => []
  | v :: vs => mpToCbor fp v :: itemsToCbor fp vs

/-- Convert keys and values of all entries. -/
def entriesToCbor (fp : FloatOps) : List (Mp × Mp) → List (Value × Value)
  | [] => []
  | (k, v) :: es => (mpToCbor fp k, mpToCbor fp v) :: entriesToCbor fp es

end

theorem cborToMp_integer (fp : FloatOps) (i : Integer) :
    cborToMp fp (.integer i) =
      match (Ranged.tryFrom _ _ i.val : Option MpInteger) with
      | some n => .integer n
      | none => .f64 (fp.ofI128 i.widen) := rfl

theorem cborToMp_array (fp : FloatOps) (items : List Value) :
    cborToMp fp (.array items) = .array (itemsToMp fp items) := rfl

theorem cborToMp_map (fp : FloatOps) (entries : List (Value × Value)) :
    cborToMp fp (.map entries) = .map (entriesToMp fp entries) := rfl

theorem cborToMp_instant (fp : FloatOps) (inner : Value) :
    cborToMp fp (.tag 1 inner) =
      match instantParts fp inner with
      | some (secs, nanos) => .ext TIMESTAMP_EXT (encodeTimestamp secs nanos)
      | none => cborToMp fp inner := rfl

theorem cborToMp_tag (fp : FloatOps) {t : UInt64} (ht : t ≠ 1) (inner : Value) :
    cborToMp fp (.tag t inner) =
      if t = 2 ∨ t = 3 then
        match inner with
        | .bytes b => .ext (if t = 2 then BIGNUM_POS else BIGNUM_NEG) b
        | _ => cborToMp fp inner
      else cborToMp fp inner :=
  if_neg ht

theorem mpToCbor_array (fp : FloatOps) (items : List Mp) :
    mpToCbor fp (.array items) = .array (itemsToCbor fp items) := rfl

theorem mpToCbor_map (fp : FloatOps) (entries : List (Mp × Mp)) :
    mpToCbor fp (.map entries) = .map (entriesToCbor fp entries) := rfl

theorem itemsToMp_eq_map (fp : FloatOps) (items : List Value) :
    itemsToMp fp items = items.map (cborToMp fp) := by
  induction items with
  | nil => rfl
  | cons v vs ih => rw [itemsToMp, ih, List.map_cons]

theorem entriesToMp_eq_map (fp : FloatOps) (entries : List (Value × Value)) :
    entriesToMp fp entries = entries.map fun e => (cborToMp fp e.1, cborToMp fp e.2) := by
  induction entries with
  | nil => rfl
  | cons e es ih => rw [entriesToMp, ih, List.map_cons]

theorem itemsToCbor_eq_map (fp : FloatOps) (items : List Mp) :
    itemsToCbor fp items = items.map (mpToCbor fp) := by
  induction items with
  | nil => rfl
  | cons v vs ih => rw [itemsToCbor, ih, List.map_cons]

theorem entriesToCbor_eq_map (fp : FloatOps) (entries : List (Mp × Mp)) :
    entriesToCbor fp entries = entries.map fun e => (mpToCbor fp e.1, mpToCbor fp e.2) := by
  induction entries with
  | nil => rfl
  | cons e es ih => rw [entriesToCbor, ih, List.map_cons]

/-! ## Timestamps survive -/

theorem packed_parts (secs nanos : Nat) (hsecs : secs < 0x400000000)
    (hnanos : nanos < 0x40000000) :
    ((nanos <<< 34 % 0x10000000000000000) ||| secs) &&& 0x3ffffffff = secs ∧
      ((nanos <<< 34 % 0x10000000000000000) ||| secs) >>> 34 = nanos ∧
      ((nanos <<< 34 % 0x10000000000000000) ||| secs) < 256 ^ 8 := by
  have hshift : nanos <<< 34 = nanos * 0x400000000 := by rw [Nat.shiftLeft_eq]
  have hpacked : (nanos <<< 34 % 0x10000000000000000) ||| secs = nanos * 0x400000000 + secs := by
    rw [Nat.mod_eq_of_lt (by omega), ← Nat.shiftLeft_add_eq_or_of_lt (by omega), hshift]
  rw [hpacked, show 0x3ffffffff = 2 ^ 34 - 1 by rfl, Nat.and_two_pow_sub_one_eq_mod,
    Nat.shiftRight_eq_div_pow]
  omega

/-- A timestamp payload reads back as the instant it was written for. -/
theorem decodeTimestamp_encodeTimestamp (secs : I64) {nanos : U32}
    (hnanos : nanos.val < 1000000000) :
    decodeTimestamp (encodeTimestamp secs nanos) = some (secs, nanos) := by
  have hge := secs.ge
  have hlt := secs.lt
  have hnonneg := nanos.ge
  unfold encodeTimestamp
  split_ifs with hshort hmedium
  · have hval : ofBytes (toBytes 4 secs.val.toNat) = secs.val.toNat :=
      ofBytes_toBytes_of_lt (by omega)
    simp only [decodeTimestamp, toBytes_length, hval, Int.toNat_of_nonneg hshort.2.1]
    rw [Option.some.injEq, Prod.mk.injEq]
    exact ⟨Ranged.ext_val (I64.wrap_val_of_mem hge hlt), Ranged.ext_val hshort.1.symm⟩
  · obtain ⟨hlow, hhigh, hbound⟩ := packed_parts secs.val.toNat nanos.val.toNat
      (by omega) (by omega)
    simp only [decodeTimestamp, toBytes_length, ofBytes_toBytes_of_lt hbound, hlow, hhigh,
      Int.toNat_of_nonneg hmedium.1, Int.toNat_of_nonneg hnonneg]
    rw [Option.some.injEq, Prod.mk.injEq]
    exact ⟨Ranged.ext_val (I64.wrap_val_of_mem hge hlt),
      Ranged.ext_val (U32.wrap_val_of_mem hnonneg nanos.lt)⟩
  · have hnanosBytes : ofBytes (toBytes 4 nanos.val.toNat) = nanos.val.toNat :=
      ofBytes_toBytes_of_lt (by omega)
    have hsecsBytes : ofBytes (toBytes 8 (secs.val % 0x10000000000000000).toNat) =
        (secs.val % 0x10000000000000000).toNat := ofBytes_toBytes_of_lt (by omega)
    have hlength : (toBytes 4 nanos.val.toNat ++
        toBytes 8 (secs.val % 0x10000000000000000).toNat).length = 12 := by simp
    simp only [decodeTimestamp, hlength]
    rw [List.drop_left' (by simp), List.take_left' (by simp), List.take_of_length_le (by simp),
      hnanosBytes, hsecsBytes, Option.some.injEq, Prod.mk.injEq, Int.toNat_of_nonneg hnonneg]
    constructor
    · apply Ranged.ext_val
      simp only [I64.wrap]
      omega
    · exact Ranged.ext_val (U32.wrap_val_of_mem hnonneg nanos.lt)

theorem extToCbor_timestamp (secs : I64) {nanos : U32} (hnanos : nanos.val < 1000000000) :
    extToCbor TIMESTAMP_EXT (encodeTimestamp secs nanos) = instantToCbor secs nanos := by
  simp only [extToCbor, if_true, decodeTimestamp_encodeTimestamp secs hnanos]

end VgiCbor.Msgpack
