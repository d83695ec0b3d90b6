import VgiCbor.Core.ConcreteCodecs
import VgiCbor.Core.Json
import VgiCbor.Security.Registry

/-!
# COSE messages

`coseDecode` reads the six COSE message shapes and their two header maps, without any
cryptographic check.  A message is an array in an envelope of tags; everything but the
tag is read from the array alone (`decodeValue_enveloped`).  `mergedHeaders` prefers the
protected header, parameter by parameter, where it could be read (`protected_wins_iff`).
-/

namespace VgiCbor.Cose

open MachineInt LabelScan Security

/-- Named COSE header parameters. -/
@[ext]
structure CoseHeaders where
  alg : Option String
  crit : Option String
  contentType : Option String
  kid : Option Bytes
  iv : Option Bytes
  x5chain : Option (List Bytes)
  x5t : Option (String × Bytes)

/-- `CoseHeaders::default()` -/
def CoseHeaders.default : CoseHeaders := ⟨none, none, none, none, none, none, none⟩

/-- A structurally decoded COSE message. -/
structure CoseDecoded where
  tag : Option UInt64
  msgType : String
  protectedHeaders : CoseHeaders
  unprotectedHeaders : CoseHeaders
  payload : Option Bytes
  signature : Option Bytes
  recipients : Option String

/-- A certificate chain: a list of byte strings, or a single one bare. -/
def decodeX5chain : Value → Option (List Bytes)
  | .bytes b => some [b]
  | .array items =>
      let certs := items.filterMap asBytes
      if certs.isEmpty then none else some certs
  | _ => none

/-- A thumbprint with its hash algorithm. -/
def decodeX5t : Value → Option (String × Bytes)
  | .array [hash, thumb] =>
      (asBytes thumb).map fun thumb => (((asInt hash).map algName).getD "", thumb)
  | _ => none

variable (platform : Platform) (codec : CborCodec)

/-- One entry of a header map. -/
def headerEntry (h : CoseHeaders) : Value × Value → CoseHeaders
  | (k, v) =>
      match label (k, v) with
      | some 1 => { h with alg := ((asInt v).map algName).or (textOf v) }
      | some 2 => { h with crit := some (platform.jsonText (Json.toJsonValue platform v)) }
      | some 3 => { h with contentType := ((asInt v).map fun i => toString i.val).or (textOf v) }
      | some 4 => { h with kid := asBytes v }
      | some 5 => { h with iv := asBytes v }
      | some 33 => { h with x5chain := decodeX5chain v }
      | some 34 => { h with x5t := decodeX5t v }
      | _ => h

/-- Decode a header map. -/
def decodeHeaderMap : Value → CoseHeaders
  | .map entries => entries.foldl (headerEntry platform) CoseHeaders.default
  | _ => CoseHeaders.default

/-- Decode a protected header: a byte string that wraps a map, or the bare map. -/
def decodeProtected : Value → CoseHeaders
  | .bytes b =>
      if b.isEmpty then CoseHeaders.default
      else
        match parse codec b with
        | .ok inner => decodeHeaderMap platform inner
        | .error _ => CoseHeaders.default
  | .map entries => decodeHeaderMap platform (.map entries)
  | _ => CoseHeaders.default

/-- The COSE message type of a tag. -/
def typeForTag (tag : UInt64) : String :=
  if tag = 18 then "COSE_Sign1"
  else if tag = 98 then "COSE_Sign"
  else if tag = 16 then "COSE_Encrypt0"
  else if tag = 96 then "COSE_Encrypt"
  else if tag = 17 then "COSE_Mac0"
  else if tag = 97 then "COSE_Mac"
  else if tag = 61 then "CWT"
  else "COSE_unknown"

/-- Decode the array of a message: the fourth element is the signature, or the recipients
when it is an array itself. -/
def decodeArray (value : Value) (tag : Option UInt64) : Except DecodeError CoseDecoded :=
  match value with
  | .array (protectedItem :: unprotectedItem :: payload :: rest) =>
      let msgType :=
        match tag with
        | some t => typeForTag t
        | none => if rest.isEmpty then "COSE_Encrypt0" else "COSE_Sign1"
      let (signature, recipients) :=
        match rest with
        | [] => (none, none)
        | .array items :: _ =>
            (none, some (platform.jsonText (Json.toJsonValue platform (.array items))))
        | other :: _ => (asBytes other, none)
      .ok
        { tag
          msgType
          protectedHeaders := decodeProtected platform codec protectedItem
          unprotectedHeaders := decodeHeaderMap platform unprotectedItem
          payload := asBytes payload
          signature
          recipients }
  | .array items =>
      .error (.structural s!"COSE array has {items.length} elements (expected 3 or 4)")
  | _ => .error (.structural "COSE message is not a CBOR array")

/-- Decode an already-parsed message, optionally with an outer tag. -/
def decodeValue (value : Value) (outerTag : Option UInt64) : Except DecodeError CoseDecoded :=
  match value with
  | .tag tag inner =>
      -- The self-describe tag is transparent, a CWT tag envelopes a message.
      if tag = 55799 then decodeValue inner outerTag
      else if tag = 61 then
        (decodeValue inner (some 61)).map fun decoded =>
          if decoded.tag.isNone ∨ outerTag = some 61 then { decoded with tag := some 61 }
          else decoded
      else decodeArray platform codec inner (some tag)
  | value => decodeArray platform codec value outerTag

/-- Structurally decode a COSE message from raw bytes. -/
def coseDecode (bytes : Bytes) : Except DecodeError CoseDecoded :=
  (parse codec bytes).bind fun value => decodeValue platform codec value none

/-- Merge protected over unprotected headers. -/
def mergedHeaders (d : CoseDecoded) : CoseHeaders where
  alg := d.protectedHeaders.alg.or d.unprotectedHeaders.alg
  crit := d.protectedHeaders.crit.or d.unprotectedHeaders.crit
  contentType := d.protectedHeaders.contentType.or d.unprotectedHeaders.contentType
  kid := d.protectedHeaders.kid.or d.unprotectedHeaders.kid
  iv := d.protectedHeaders.iv.or d.unprotectedHeaders.iv
  x5chain := d.protectedHeaders.x5chain.or d.unprotectedHeaders.x5chain
  x5t := d.protectedHeaders.x5t.or d.unprotectedHeaders.x5t

/-- The raw inner payload bytes of a message. -/
def cosePayload (bytes : Bytes) : Except DecodeError (Option Bytes) :=
  (coseDecode platform codec bytes).map CoseDecoded.payload

/-- The two lowercase hex digits of a byte. -/
def hexByte (b : UInt8) : List Char := [Nat.digitChar (b.toNat / 16), Nat.digitChar (b.toNat % 16)]

/-- The thumbprint as a lowercase hex string. -/
def coseX5t (bytes : Bytes) : Except DecodeError (Option String) :=
  (coseDecode platform codec bytes).map fun d =>
    (mergedHeaders d).x5t.map fun x5t => String.ofList (x5t.2.flatMap hexByte)

/-- The certificate chain. -/
def coseX5chain (bytes : Bytes) : Except DecodeError (Option (List Bytes)) :=
  (coseDecode platform codec bytes).map fun d => (mergedHeaders d).x5chain

/-! ## Header parameters -/

/-- The header parameters that are decoded. -/
inductive Param where
  | alg
  | crit
  | contentType
  | kid
  | iv
  | x5chain
  | x5t

/-- What a header parameter can hold. -/
inductive ParamValue where
  | text (s : String)
  | bytes (b : Bytes)
  | chain (certs : List Bytes)
  | thumbprint (hash : String) (thumb : Bytes)
  deriving DecidableEq

namespace Param

/-- The label of a parameter. -/
def label : Param → Int
  | .alg => 1
  | .crit => 2
  | .contentType => 3
  | .kid => 4
  | .iv => 5
  | .x5chain => 33
  | .x5t => 34

/-- The parameter in decoded headers. -/
def field : Param → CoseHeaders → Option ParamValue
  | .alg, h => h.alg.map .text
  | .crit, h => h.crit.map .text
  | .contentType, h => h.contentType.map .text
  | .kid, h => h.kid.map .bytes
  | .iv, h => h.iv.map .bytes
  | .x5chain, h => h.x5chain.map .chain
  | .x5t, h => h.x5t.map fun x5t => .thumbprint x5t.1 x5t.2

/-- What a value is read as under the label of the parameter. -/
def read : Param → Value → Option ParamValue
  | .alg, v => (((asInt v).map algName).or (textOf v)).map .text
  | .crit, v => some (.text (platform.jsonText (Json.toJsonValue platform v)))
  | .contentType, v => (((asInt v).map fun i => toString i.val).or (textOf v)).map .text
  | .kid, v => (asBytes v).map .bytes
  | .iv, v => (asBytes v).map .bytes
  | .x5chain, v => (decodeX5chain v).map .chain
  | .x5t, v => (decodeX5t v).map fun x5t => .thumbprint x5t.1 x5t.2

end Param

variable {platform} {codec}

/-- What an entry sets, field by field. -/
theorem headerEntry_eq (h : CoseHeaders) (entry : Value × Value) :
    headerEntry platform h entry =
      { alg := if hasLabel 1 entry then ((asInt entry.2).map algName).or (textOf entry.2)
          else h.alg
        crit := if hasLabel 2 entry then
            some (platform.jsonText (Json.toJsonValue platform entry.2))
          else h.crit
        contentType := if hasLabel 3 entry then
            ((asInt entry.2).map fun i => toString i.val).or (textOf entry.2)
          else h.contentType
        kid := if hasLabel 4 entry then asBytes entry.2 else h.kid
        iv := if hasLabel 5 entry then asBytes entry.2 else h.iv
        x5chain := if hasLabel 33 entry then decodeX5chain entry.2 else h.x5chain
        x5t := if hasLabel 34 entry then decodeX5t entry.2 else h.x5t } := by
  obtain ⟨k, v⟩ := entry
  rw [headerEntry]
  split
  case h_1 halg => simp only [hasLabel_of halg]; rfl
  case h_2 hcrit => simp only [hasLabel_of hcrit]; rfl
  case h_3 hcontentType => simp only [hasLabel_of hcontentType]; rfl
  case h_4 hkid => simp only [hasLabel_of hkid]; rfl
  case h_5 hiv => simp only [hasLabel_of hiv]; rfl
  case h_6 hx5chain => simp only [hasLabel_of hx5chain]; rfl
  case h_7 hx5t => simp only [hasLabel_of hx5t]; rfl
  case h_8 halg hcrit hcontentType hkid hiv hx5chain hx5t =>
    simp only [hasLabel_of_ne halg, hasLabel_of_ne hcrit, hasLabel_of_ne hcontentType,
      hasLabel_of_ne hkid, hasLabel_of_ne hiv, hasLabel_of_ne hx5chain, hasLabel_of_ne hx5t]
    rfl

/-- A header map is read label by label, each parameter from the last entry with its
label. -/
theorem field_headerEntries (p : Param) (entries : List (Value × Value)) (h : CoseHeaders) :
    p.field (entries.foldl (headerEntry platform) h) =
      ((under p.label entries).map (p.read platform)).getD (p.field h) := by
  rw [under, Option.map_map]
  refine foldl_field (p := hasLabel p.label) p.field _ ?_ h entries
  intro h entry
  rw [headerEntry_eq]
  have hmap {α : Type} (f : α → ParamValue) (read kept : Option α) :
      (if hasLabel p.label entry then read else kept).map f =
        if hasLabel p.label entry then read.map f else kept.map f := apply_ite _ _ _ _
  cases p with
  | alg | crit | contentType => exact hmap .text _ _
  | kid | iv => exact hmap .bytes _ _
  | x5chain => exact hmap .chain _ _
  | x5t => exact hmap (fun (x5t : String × Bytes) => .thumbprint x5t.1 x5t.2) _ _

theorem field_decodeHeaderMap (p : Param) (entries : List (Value × Value)) :
    p.field (decodeHeaderMap platform (.map entries)) =
      (under p.label entries).bind (p.read platform) := by
  have hdefault : p.field CoseHeaders.default = none := by
    cases p <;> rfl
  rw [decodeHeaderMap, field_headerEntries, hdefault]
  cases under p.label entries <;> rfl

theorem field_mergedHeaders (p : Param) (d : CoseDecoded) :
    p.field (mergedHeaders d) = (p.field d.protectedHeaders).or (p.field d.unprotectedHeaders) := by
  cases p <;> simp [Param.field, mergedHeaders, Option.map_or]

/-! ## Envelopes -/

/-- The array of a message below a stack of tags, the first one outermost. -/
def enveloped (tags : List UInt64) (items : List Value) : Value :=
  tags.foldr Value.tag (.array items)

/-- An envelope is refused whatever it holds, or it names the message type of the array and
at most changes the tag of what the array is decoded to. -/
theorem decodeValue_enveloped (platform : Platform) (codec : CborCodec) (tags : List UInt64)
    (outerTag : Option UInt64) :
    (∃ e, ∀ items, decodeValue platform codec (enveloped tags items) outerTag = .error e) ∨
      ∃ (tag : Option UInt64) (retag : CoseDecoded → CoseDecoded),
        (∀ items, decodeValue platform codec (enveloped tags items) outerTag =
          (decodeArray platform codec (.array items) tag).map retag) ∧
        ∀ d, ∃ t, retag d = { d with tag := t } := by
  induction tags generalizing outerTag with
  | nil =>
      refine .inr ⟨outerTag, id, fun items => ?_, fun d => ⟨d.tag, rfl⟩⟩
      show decodeArray platform codec (.array items) outerTag = _
      cases decodeArray platform codec (.array items) outerTag <;> rfl
  | cons t tags ih =>
      have hcons (items : List Value) : enveloped (t :: tags) items =
          .tag t (enveloped tags items) := rfl
      by_cases hself : t = 55799
      · -- The self-describe tag is dropped.
        simp only [hcons, decodeValue, if_pos hself]
        exact ih outerTag
      · by_cases hcwt : t = 61
        · simp only [hcons, decodeValue, if_neg hself, if_pos hcwt]
          -- Below the CWT tag the outer tag is 61, and the result is relabelled.
          rcases ih (some 61) with ⟨e, he⟩ | ⟨tag, retag, hrun, hretag⟩
          · exact .inl ⟨e, fun items => by rw [he]; rfl⟩
          · refine .inr ⟨tag, fun d => if (retag d).tag.isNone ∨ outerTag = some 61 then
                { retag d with tag := some 61 } else retag d, fun items => ?_, fun d => ?_⟩
            · rw [hrun]
              cases decodeArray platform codec (.array items) tag <;> rfl
            · obtain ⟨tag', htag'⟩ := hretag d
              simp only [htag']
              split
              · exact ⟨some 61, rfl⟩
              · exact ⟨tag', rfl⟩
        · simp only [hcons, decodeValue, if_neg hself, if_neg hcwt]
          -- Any other tag has to stand on the array itself.
          cases tags with
          | nil =>
              refine .inr ⟨some t, id, fun items => ?_, fun d => ⟨d.tag, rfl⟩⟩
              show decodeArray platform codec (.array items) (some t) = _
              cases decodeArray platform codec (.array items) (some t) <;> rfl
          | cons t' tags' => exact .inl ⟨_, fun items => rfl⟩

/-- The headers of a message are those of its first two elements, and whether it is
accepted does not depend on them. -/
theorem decodeValue_headers {tags : List UInt64} {protectedItem unprotectedItem : Value}
    {rest : List Value} {d : CoseDecoded}
    (h : decodeValue platform codec
      (enveloped tags (protectedItem :: unprotectedItem :: rest)) none = .ok d) :
    d.protectedHeaders = decodeProtected platform codec protectedItem ∧
      d.unprotectedHeaders = decodeHeaderMap platform unprotectedItem ∧
      ∀ unprotectedItem', ∃ d', decodeValue platform codec
        (enveloped tags (protectedItem :: unprotectedItem' :: rest)) none = .ok d' := by
  rcases decodeValue_enveloped platform codec tags none with ⟨e, he⟩ | ⟨tag, retag, hrun, hretag⟩
  · rw [he] at h
    cases h
  · rw [hrun] at h
    cases rest with
    | nil => cases h
    | cons payload rest =>
        cases h
        refine ⟨?_, ?_, fun unprotectedItem' => ?_⟩
        · obtain ⟨t, ht⟩ := hretag _
          rw [ht]
        · obtain ⟨t, ht⟩ := hretag _
          rw [ht]
        · rw [hrun]
          exact ⟨_, rfl⟩

/-! ## Protected headers -/

/-- The value is one that is decoded under the label of the parameter. -/
def Readable : Param → Value → Prop
  | .alg, v | .contentType, v => (asInt v).isSome ∨ ∃ s, v = .text s
  | .crit, _ => True
  | .kid, v | .iv, v => ∃ b, v = .bytes b
  | .x5chain, v => (∃ b, v = .bytes b) ∨ ∃ items b, v = .array items ∧ .bytes b ∈ items
  | .x5t, v => ∃ hash b, v = .array [hash, .bytes b]

theorem asBytes_isSome_iff (v : Value) : (asBytes v).isSome = true ↔ ∃ b, v = .bytes b := by
  cases v <;> simp [asBytes]

theorem textOf_isSome_iff (v : Value) : (textOf v).isSome = true ↔ ∃ s, v = .text s := by
  cases v <;> simp [textOf]

theorem decodeX5chain_isSome_iff (v : Value) :
    (decodeX5chain v).isSome = true ↔ Readable .x5chain v := by
  cases v with
  | array items =>
      have hcerts : items.filterMap asBytes = [] ↔ ∀ b, .bytes b ∉ items := by
        rw [List.filterMap_eq_nil_iff]
        constructor
        · intro hnone b hb
          cases hnone _ hb
        · intro hno v hv
          cases v with
          | bytes b => exact absurd hv (hno b)
          | _ => rfl
      simp only [decodeX5chain, List.isEmpty_iff, Readable]
      split
      · next h => simpa using hcerts.1 h
      · next h => simpa using mt hcerts.2 h
  | _ => simp [decodeX5chain, Readable]

theorem decodeX5t_isSome_iff (v : Value) : (decodeX5t v).isSome = true ↔ Readable .x5t v := by
  rw [Readable]
  unfold decodeX5t
  split
  · next hash thumb =>
      rw [Option.isSome_map, asBytes_isSome_iff]
      constructor
      · rintro ⟨b, rfl⟩
        exact ⟨hash, b, rfl⟩
      · rintro ⟨hash', b, h⟩
        cases h
        exact ⟨b, rfl⟩
  · next hno =>
      simp only [Option.isSome_none, Bool.false_eq_true, false_iff]
      rintro ⟨hash, b, rfl⟩
      exact hno _ _ rfl

theorem read_isSome_iff (p : Param) (v : Value) :
    (p.read platform v).isSome = true ↔ Readable p v := by
  cases p with
  | alg => simp [Param.read, Readable, textOf_isSome_iff]
  | crit => simp [Param.read, Readable]
  | contentType => simp [Param.read, Readable, textOf_isSome_iff]
  | kid => simp [Param.read, Readable, asBytes_isSome_iff]
  | iv => simp [Param.read, Readable, asBytes_isSome_iff]
  | x5chain => rw [Param.read, Option.isSome_map, decodeX5chain_isSome_iff]
  | x5t => rw [Param.read, Option.isSome_map, decodeX5t_isSome_iff]

/-- A label as a map key. -/
def Param.key : Param → Integer
  | .alg => smallInt 1
  | .crit => smallInt 2
  | .contentType => smallInt 3
  | .kid => smallInt 4
  | .iv => smallInt 5
  | .x5chain => smallInt 33
  | .x5t => smallInt 34

/-- A value that is decoded under the label of the parameter. -/
def Param.sample : Param → Value
  | .alg | .contentType => .text ""
  | .crit => .null
  | .kid | .iv | .x5chain => .bytes []
  | .x5t => .array [.null, .bytes []]

theorem readable_sample (p : Param) : Readable p p.sample := by
  cases p <;> simp [Readable, Param.sample]

theorem under_sample (p : Param) (v : Value) : under p.label [(.integer p.key, v)] = some v := by
  cases p <;> rfl

/-- The parameter of a message is the same whatever its unprotected header map says. -/
def ProtectedWins (platform : Platform) (codec : CborCodec) (p : Param)
    (message : List (Value × Value) → Value) : Prop :=
  ∀ u u' d d', decodeValue platform codec (message u) none = .ok d →
    decodeValue platform codec (message u') none = .ok d' →
    p.field (mergedHeaders d) = p.field (mergedHeaders d')

/-- A parameter of a message whose protected header carries it: what the carried value is
read as, or else what the unprotected header has for it. -/
theorem field_of_carried {tags : List UInt64} {header : Bytes}
    {entries u : List (Value × Value)} (hheader : parse codec header = .ok (.map entries))
    {p : Param} {v : Value} (hcarries : under p.label entries = some v) {rest : List Value}
    {d : CoseDecoded}
    (h : decodeValue platform codec (enveloped tags (.bytes header :: .map u :: rest)) none =
      .ok d) :
    p.field (mergedHeaders d) =
      (p.read platform v).or ((under p.label u).bind (p.read platform)) := by
  have hprotected : decodeProtected platform codec (.bytes header) =
      decodeHeaderMap platform (.map entries) := by
    rw [decodeProtected, parse_nonempty hheader, hheader]
    rfl
  obtain ⟨hprot, hunprot, -⟩ := decodeValue_headers h
  rw [field_mergedHeaders, hprot, hunprot, hprotected, field_decodeHeaderMap,
    field_decodeHeaderMap, hcarries, Option.bind_some]

/-- A parameter that the protected header carries is the protected one, whatever the
unprotected header says, if and only if the value it carries can be read. -/
theorem protected_wins_iff (platform : Platform) (codec : CborCodec) {tags : List UInt64}
    {header : Bytes} {unprotectedItem : Value} {rest : List Value} {d : CoseDecoded}
    (haccept : decodeValue platform codec
      (enveloped tags (.bytes header :: unprotectedItem :: rest)) none = .ok d)
    {entries : List (Value × Value)} (hheader : parse codec header = .ok (.map entries))
    (p : Param) {v : Value} (hcarries : under p.label entries = some v) :
    ProtectedWins platform codec p
        (fun u => enveloped tags (.bytes header :: .map u :: rest)) ↔
      Readable p v := by
  rw [← @read_isSome_iff platform]
  constructor
  · intro hwins
    -- Without a protected value the parameter is the unprotected one, or none.
    by_contra hread
    rw [Option.not_isSome_iff_eq_none] at hread
    obtain ⟨-, -, hany⟩ := decodeValue_headers haccept
    obtain ⟨d₁, hd₁⟩ := hany (.map [])
    obtain ⟨d₂, hd₂⟩ := hany (.map [(.integer p.key, p.sample)])
    have heq := hwins _ _ _ _ hd₁ hd₂
    rw [field_of_carried hheader hcarries hd₁, field_of_carried hheader hcarries hd₂, hread,
      under_sample, Option.none_or, Option.none_or, Option.bind_some] at heq
    have hsample := (@read_isSome_iff platform p p.sample).2 (readable_sample p)
    rw [← heq] at hsample
    cases hsample
  · intro hread u u' d d' hd hd'
    obtain ⟨value, hvalue⟩ := Option.isSome_iff_exists.1 hread
    rw [field_of_carried hheader hcarries hd, field_of_carried hheader hcarries hd', hvalue,
      Option.some_or, Option.some_or]

/-- A signed message without payload and signature, whose protected header has one entry. -/
def sealedMessage (p : Param) (v : Value) (u : List (Value × Value)) : Value :=
  enveloped [18]
    (.bytes (Definite.encode (.map [(.integer p.key, v)])) :: .map u :: [.null, .bytes []])

theorem parse_sealedHeader {p : Param} {v : Value} (hflat : v.depth = 0) :
    parse Definite.codec (Definite.encode (.map [(.integer p.key, v)])) =
      .ok (.map [(.integer p.key, v)]) := by
  refine (Definite.codec_roundTrips.keeps _).parse_encode rfl ?_
  simp [Value.depth, Value.depthEntries, hflat, MAX_NESTING]

/-- A key identifier in the protected header cannot be replaced. -/
theorem protected_wins_iff_kid :
    ProtectedWins .bare Definite.codec .kid (sealedMessage .kid (.bytes [11])) :=
  (@protected_wins_iff .bare Definite.codec [18] _ (.map []) [.null, .bytes []] _ rfl _
    (parse_sealedHeader rfl) .kid _ (under_sample _ _)).2 ⟨[11], rfl⟩

/-- A protected key identifier that is text, and no byte string, is replaced by the
unprotected one. -/
theorem protected_kid_replaced :
    parse Definite.codec (Definite.encode (.map [(.integer Param.kid.key, .text "k")])) =
        .ok (.map [(.integer Param.kid.key, .text "k")]) ∧
      ¬ ProtectedWins .bare Definite.codec .kid (sealedMessage .kid (.text "k")) := by
  refine ⟨parse_sealedHeader rfl, fun hwins => ?_⟩
  have hfield {u : List (Value × Value)} {d : CoseDecoded}
      (h : decodeValue .bare Definite.codec (sealedMessage .kid (.text "k") u) none = .ok d) :=
    field_of_carried (parse_sealedHeader rfl) (under_sample .kid _) h
  have heq := hwins [] [(.integer Param.kid.key, .bytes [66])] _ _ rfl rfl
  rw [hfield rfl, hfield rfl, under_sample] at heq
  cases heq

end VgiCbor.Cose
