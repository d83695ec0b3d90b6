import VgiCbor.Core.ConcreteCodecs
import VgiCbor.Core.Json
import VgiCbor.Core.Validate

/-!
# Transcoding into CBOR

`from_json` and `msgpack_to_cbor` accept what their parsers accept, and these have nesting
limits of their own.  The conversions keep the nesting, so what they return is decodable
exactly if the input is nested at most as deep as the CBOR decoders allow
(`transcoded_decodable_iff`).
-/

namespace VgiCbor

open MachineInt Binary64 Msgpack

/-- Transcode MessagePack to CBOR bytes. -/
def Msgpack.toCbor (fp : FloatOps) (codec : CborCodec) (mp : MpCodec) (bytes : Bytes) :
    Except String Bytes :=
  match Msgpack.parse mp bytes with
  | .error e => .error e
  | .ok item => VgiCbor.encodeValue codec (mpToCbor fp item)

/-! ## Nesting of JSON -/

namespace Json

mutual

/-- Nesting depth: every array and object is one level. -/
def depth : Json → Nat
  | .array items => depthItems items + 1
  | .object members => depthMembers members + 1
  | _ => 0

def depthItems : List Json → Nat
  | [] => 0
  | j :: js => max (depth j) (depthItems js)

def depthMembers : List (String × Json) → Nat
  | [] => 0
  | (_, j) :: ms => max (depth j) (depthMembers ms)

end

theorem depth_numberToCbor (n : Number) : (numberToCbor n).depth = 0 := by
  cases n <;> rfl

mutual

/-- Converting JSON keeps its nesting. -/
theorem depth_jsonToCbor : ∀ j : Json, (jsonToCbor j).depth = j.depth
  | .null => rfl
  | .bool _ => rfl
  | .number n => depth_numberToCbor n
  | .string _ => rfl
  | .array items => congrArg (· + 1) (depth_itemsToCbor items)
  | .object members => congrArg (· + 1) (depth_membersToCbor members)

theorem depth_itemsToCbor : ∀ items : List Json,
    Value.depthItems (itemsToCbor items) = depthItems items
  | [] => rfl
  | j :: js => congrArg₂ max (depth_jsonToCbor j) (depth_itemsToCbor js)

theorem depth_membersToCbor : ∀ members : List (String × Json),
    Value.depthEntries (membersToCbor members) = depthMembers members
  | [] => rfl
  | (key, j) :: ms => by
      have hkey : Value.depth (.text key) = 0 := rfl
      rw [membersToCbor, Value.depthEntries, depthMembers, depth_jsonToCbor j,
        depth_membersToCbor ms, hkey, Nat.zero_max]

end

end Json

/-! ## Nesting of MessagePack -/

namespace Msgpack

/-- The levels an `ext` item takes up in CBOR: a whole second is a tag over an integer, any
other instant a tag over a tagged array whose mantissa may be a bignum; a bignum is a tag,
and everything else a map. -/
def extLevels (ty : I8) (data : Bytes) : Nat :=
  if ty = TIMESTAMP_EXT then
    match decodeTimestamp data with
    | some (secs, nanos) =>
        let total := I128.wrap (secs.val * 1000000000 + nanos.val)
        if nanos.val = 0 then 1
        else if -0x10000000000000000 ≤ total.val ∧ total.val < 0x10000000000000000 then 3
        else 4
    | none => 1
  else 1

mutual

/-- Nesting depth, with the levels of `ext` items: these become objects or tags, which count
as levels of their own. -/
def levels : Mp → Nat
  | .array items => levelsItems items + 1
  | .map entries => levelsEntries entries + 1
  | .ext ty data => extLevels ty data
  | _ => 0

def levelsItems : List Mp → Nat
  | [] => 0
  | v :: vs => max (levels v) (levelsItems vs)

/-- The deepest key or value of a list of entries. -/
def levelsEntries : List (Mp × Mp) → Nat
  | [] => 0
  | (k, v) :: es => max (max (levels k) (levels v)) (levelsEntries es)

end

theorem depth_bignum (n : I128) :
    (Bignum.toValue n).depth =
      if -0x10000000000000000 ≤ n.val ∧ n.val < 0x10000000000000000 then 0 else 1 := by
  unfold Bignum.toValue
  split
  · next i hi =>
      have hval : i.val = n.val := Ranged.tryFrom_eq_some_iff.1 hi
      rw [if_pos ⟨hval ▸ i.ge, hval ▸ i.lt⟩]
      rfl
  · next hnone =>
      rw [if_neg (Ranged.tryFrom_eq_none_iff.1 hnone)]
      split <;> rfl

theorem depth_extToCbor (ty : I8) (data : Bytes) :
    (extToCbor ty data).depth = extLevels ty data := by
  have hother : (if ty = BIGNUM_POS then Value.tag 2 (.bytes data)
      else if ty = BIGNUM_NEG then .tag 3 (.bytes data)
      else .map [(.text "ext_type", .integer ty.widen), (.text "data", .bytes data)]).depth =
        1 := by
    split_ifs <;> rfl
  simp only [extToCbor, extLevels]
  by_cases hty : ty = TIMESTAMP_EXT
  · rw [if_pos hty, if_pos hty]
    cases decodeTimestamp data with
    | none => exact hother
    | some instant =>
        obtain ⟨secs, nanos⟩ := instant
        simp only [instantToCbor]
        by_cases hnanos : nanos.val = 0
        · rw [if_pos hnanos, if_pos hnanos]
          rfl
        · rw [if_neg hnanos, if_neg hnanos]
          simp only [Value.depth, Value.depthItems, depth_bignum]
          split_ifs <;> rfl
  · rw [if_neg hty, if_neg hty]
    exact hother

mutual

/-- Converting MessagePack keeps its nesting. -/
theorem depth_mpToCbor (fp : FloatOps) : ∀ v : Mp, (mpToCbor fp v).depth = levels v
  | .nil => rfl
  | .boolean _ => rfl
  | .integer _ => rfl
  | .f32 _ => rfl
  | .f64 _ => rfl
  | .string (.text _) => rfl
  | .string (.invalid _) => rfl
  | .binary _ => rfl
  | .array items => congrArg (· + 1) (depth_itemsToCbor fp items)
  | .map entries => congrArg (· + 1) (depth_entriesToCbor fp entries)
  | .ext ty data => depth_extToCbor ty data

theorem depth_itemsToCbor (fp : FloatOps) : ∀ items : List Mp,
    Value.depthItems (itemsToCbor fp items) = levelsItems items
  | [] => rfl
  | v :: vs => congrArg₂ max (depth_mpToCbor fp v) (depth_itemsToCbor fp vs)

theorem depth_entriesToCbor (fp : FloatOps) : ∀ entries : List (Mp × Mp),
    Value.depthEntries (entriesToCbor fp entries) = levelsEntries entries
  | [] => rfl
  | (k, v) :: es => congrArg₂ max (congrArg₂ max (depth_mpToCbor fp k) (depth_mpToCbor fp v))
      (depth_entriesToCbor fp es)

end

end Msgpack

/-! ## Decoding what was transcoded -/

variable {codec : CborCodec}

/-- Encoded bytes are accepted exactly if the value is shallow enough; the encoder itself has
no limit. -/
theorem encodeValue_decodable_iff {v : Value} (hkept : codec.Keeps v) {out : Bytes}
    (hencode : VgiCbor.encodeValue codec v = .ok out) :
    (∃ w, parseStrict codec out = .ok w) ↔ v.depth ≤ MAX_NESTING := by
  have hbytes : codec.encode v = .ok out := by
    unfold VgiCbor.encodeValue at hencode
    split at hencode
    · next bytes hbytes =>
        cases hencode
        exact hbytes
    · cases hencode
  rw [hkept.parseStrict_encode hbytes]
  split_ifs with hdepth
  · exact iff_of_true ⟨v, rfl⟩ hdepth
  · refine iff_of_false ?_ hdepth
    rintro ⟨w, hw⟩
    cases hw

/-- What `from_json` and `msgpack_to_cbor` return is accepted by `parse_strict` exactly if
the JSON document, or the MessagePack item, is nested at most as deep as the CBOR decoders
allow. -/
theorem transcoded_decodable_iff (hcodec : codec.RoundTrips) (platform : Platform)
    (mp : MpCodec) (fp : FloatOps) :
    (∀ s out, Json.fromJsonStr platform codec s = .ok out →
      ∃ json, platform.parseJson s = .ok json ∧
        ((∃ v, parseStrict codec out = .ok v) ↔ json.depth ≤ MAX_NESTING)) ∧
    (∀ blob out, Msgpack.toCbor fp codec mp blob = .ok out →
      ∃ item, Msgpack.parse mp blob = .ok item ∧
        ((∃ v, parseStrict codec out = .ok v) ↔ Msgpack.levels item ≤ MAX_NESTING)) := by
  constructor
  · intro s out hout
    unfold Json.fromJsonStr at hout
    split at hout
    · cases hout
    · next json hjson =>
        refine ⟨json, hjson, ?_⟩
        rw [encodeValue_decodable_iff (hcodec.keeps _) hout, depth_canonicalize, Json.depth_jsonToCbor]
  · intro blob out hout
    unfold Msgpack.toCbor at hout
    split at hout
    · cases hout
    · next item hitem =>
        refine ⟨item, hitem, ?_⟩
        rw [encodeValue_decodable_iff (hcodec.keeps _) hout, Msgpack.depth_mpToCbor]

/-- Arrays inside each other. -/
def nestedJson : Nat → Json
  | 0 => .array []
  | n + 1 => .array [nestedJson n]

@[inherit_doc nestedJson]
def nestedMp : Nat → Mp
  | 0 => .array []
  | n + 1 => .array [nestedMp n]

/-- The JSON text of `nestedJson n`. -/
def brackets (n : Nat) : String :=
  String.ofList (List.replicate (n + 1) '[' ++ List.replicate (n + 1) ']')

/-- A platform whose JSON parser knows nested arrays only, up to 127 levels, which is the
limit of the real one. -/
def bracketPlatform : Platform :=
  { Platform.bare with
    parseJson := fun s =>
      let n := (s.toList.takeWhile (· == '[')).length - 1
      if n < 127 ∧ s = brackets n then .ok (nestedJson n)
      else .error "recursion limit exceeded" }

theorem depth_nestedJson (n : Nat) : (nestedJson n).depth = n + 1 := by
  induction n with
  | zero => rfl
  | succ n ih => simp only [nestedJson, Json.depth, Json.depthItems, ih, Nat.max_zero]

theorem levels_nestedMp (n : Nat) : Msgpack.levels (nestedMp n) = n + 1 := by
  induction n with
  | zero => rfl
  | succ n ih => simp only [nestedMp, Msgpack.levels, Msgpack.levelsItems, ih, Nat.max_zero]

theorem depth_nestedMp (n : Nat) : (nestedMp n).depth = n + 1 := by
  induction n with
  | zero => rfl
  | succ n ih => simp only [nestedMp, Mp.depth, Mp.depthItems, ih, Nat.max_zero]

theorem encode_nestedMp (n : Nat) :
    FixMsgpack.codec.encode (nestedMp n) = .ok (List.replicate n 0x91 ++ [0x90]) := by
  induction n with
  | zero => rfl
  | succ n ih =>
      change FixMsgpack.encode (nestedMp n) = _ at ih
      change FixMsgpack.encode (.array [nestedMp n]) = _
      simp only [FixMsgpack.encode, FixMsgpack.encodeItems, ih]
      simp [Except.bind, Except.map, List.replicate_succ]

theorem bracketPlatform_parse {n : Nat} (hn : n < 127) :
    bracketPlatform.parseJson (brackets n) = .ok (nestedJson n) := by
  have hlength : ((brackets n).toList.takeWhile (· == '[')).length - 1 = n := by
    rw [brackets, String.toList_ofList, List.takeWhile_append]
    simp
  show (if _ ∧ _ then _ else _) = _
  rw [hlength, if_pos ⟨hn, rfl⟩]

theorem fromJsonStr_brackets {n : Nat} (hn : n < 127) :
    Json.fromJsonStr bracketPlatform Definite.codec (brackets n) =
      .ok (Definite.encode (canonicalize Definite.codec .core (Json.jsonToCbor (nestedJson n)))) := by
  rw [Json.fromJsonStr, bracketPlatform_parse hn]
  rfl

theorem transcoded_decodable_iff_brackets :
    ∃ v, parseStrict Definite.codec (Definite.encode
      (canonicalize Definite.codec .core (Json.jsonToCbor (nestedJson 63)))) = .ok v := by
  obtain ⟨json, hjson, hiff⟩ := (transcoded_decodable_iff Definite.codec_roundTrips
    bracketPlatform FixMsgpack.codec Platform.bare.fp).1 _ _ (fromJsonStr_brackets (by decide : 63 < 127))
  obtain rfl : nestedJson 63 = json :=
    Except.ok.inj ((bracketPlatform_parse (by decide)).symm.trans hjson)
  rw [hiff, depth_nestedJson, MAX_NESTING]

/-- Arrays inside each other, 65 of them, are encoded and then refused. -/
theorem nested_65_refused :
    (∃ out, Json.fromJsonStr bracketPlatform Definite.codec (brackets 64) = .ok out ∧
      parseStrict Definite.codec out = .error .nestingLimit) ∧
    ∃ out, Msgpack.toCbor Platform.bare.fp Definite.codec FixMsgpack.codec
        (List.replicate 64 0x91 ++ [0x90]) = .ok out ∧
      parseStrict Definite.codec out = .error .nestingLimit := by
  have hrefused {v : Value} (hdepth : v.depth = 65) :
      parseStrict Definite.codec (Definite.encode v) = .error .nestingLimit := by
    rw [(Definite.codec_roundTrips.keeps _).parseStrict_encode rfl, hdepth, MAX_NESTING]
    rfl
  constructor
  · refine ⟨_, fromJsonStr_brackets (by decide), hrefused ?_⟩
    rw [depth_canonicalize, Json.depth_jsonToCbor, depth_nestedJson]
  · have hparse : Msgpack.parse FixMsgpack.codec (List.replicate 64 0x91 ++ [0x90]) =
        .ok (nestedMp 64) := by
      have hdepth : (nestedMp 64).depth ≤ 1023 := by
        rw [depth_nestedMp]
        decide
      rw [Msgpack.parse,
        FixMsgpack.codec_roundTrips.decode_encode _ _ (encode_nestedMp 64) hdepth]
      rfl
    refine ⟨Definite.encode (Msgpack.mpToCbor Platform.bare.fp (nestedMp 64)), ?_, hrefused ?_⟩
    · rw [Msgpack.toCbor, hparse]
      rfl
    · rw [Msgpack.depth_mpToCbor, levels_nestedMp]

end VgiCbor
