import VgiCbor.Security.Cose

/-!
# The six COSE message shapes

What a message of each registered type is built from, and what it is decoded to.  All six
are taken apart again but for one field: of a COSE_Mac the recipients stand behind the MAC
tag, where they are not looked for (`cose_decode_inverts_iff`).
-/

namespace VgiCbor.Cose

open Security

/-- The message types, each with the fields that stand behind the payload.  A message of a
type without a field cannot have it. -/
inductive Shape where
  | sign1 (signature : Bytes)
  | sign (signatures : List Value)
  | encrypt0
  | encrypt (recipients : List Value)
  | mac0 (macTag : Bytes)
  | mac (macTag : Bytes) (recipients : List Value)

namespace Shape

/-- The registered tag. -/
def tag : Shape → UInt64
  | .sign1 _ => 18
  | .sign _ => 98
  | .encrypt0 => 16
  | .encrypt _ => 96
  | .mac0 _ => 17
  | .mac _ _ => 97

/-- The name of the type. -/
def name : Shape → String
  | .sign1 _ => "COSE_Sign1"
  | .sign _ => "COSE_Sign"
  | .encrypt0 => "COSE_Encrypt0"
  | .encrypt _ => "COSE_Encrypt"
  | .mac0 _ => "COSE_Mac0"
  | .mac _ _ => "COSE_Mac"

/-- The items behind the payload. -/
def trailing : Shape → List Value
  | .sign1 signature => [.bytes signature]
  | .sign signatures => [.array signatures]
  | .encrypt0 => []
  | .encrypt recipients => [.array recipients]
  | .mac0 macTag => [.bytes macTag]
  | .mac macTag recipients => [.bytes macTag, .array recipients]

/-- The signature or MAC tag of the types that have one. -/
def signature : Shape → Option Bytes
  | .sign1 signature => some signature
  | .mac0 macTag => some macTag
  | .mac macTag _ => some macTag
  | _ => none

/-- The signatures or recipients of the types that have them. -/
def recipients : Shape → Option (List Value)
  | .sign signatures => some signatures
  | .encrypt recipients => some recipients
  | .mac _ recipients => some recipients
  | _ => none

/-- The type has recipients behind a MAC tag. -/
def isMac : Shape → Bool
  | .mac _ _ => true
  | _ => false

end Shape

/-- What a message is built from.  Without protected headers their byte string is empty,
without a payload it is nil. -/
structure CoseMessage where
  shape : Shape
  protectedMap : Option (List (Value × Value))
  unprotectedMap : List (Value × Value)
  payload : Option Bytes

namespace CoseMessage

/-- The byte string that wraps the protected header map. -/
def Wraps (codec : CborCodec) (m : CoseMessage) (header : Bytes) : Prop :=
  match m.protectedMap with
  | none => header = []
  | some entries => codec.encode (.map entries) = .ok header

/-- The payload item. -/
def payloadItem (m : CoseMessage) : Value := (m.payload.map Value.bytes).getD .null

/-- The tagged item of a message with the given protected byte string. -/
def item (m : CoseMessage) (header : Bytes) : Value :=
  .tag m.shape.tag (.array (.bytes header :: .map m.unprotectedMap :: m.payloadItem ::
    m.shape.trailing))

end CoseMessage

variable (platform : Platform)

/-- The headers a map stands for, label by label, each from the last entry with its label. -/
def headersOf (entries : List (Value × Value)) : CoseHeaders where
  alg := (under 1 entries).bind fun v => ((asInt v).map algName).or (textOf v)
  crit := (under 2 entries).map fun v => platform.jsonText (Json.toJsonValue platform v)
  contentType := (under 3 entries).bind fun v => ((asInt v).map fun i => toString i.val).or (textOf v)
  kid := (under 4 entries).bind asBytes
  iv := (under 5 entries).bind asBytes
  x5chain := (under 33 entries).bind decodeX5chain
  x5t := (under 34 entries).bind decodeX5t

/-- The parts a message is made of, as a decoded message. -/
def CoseMessage.decoded (m : CoseMessage) : CoseDecoded where
  tag := some m.shape.tag
  msgType := m.shape.name
  protectedHeaders := headersOf platform (m.protectedMap.getD [])
  unprotectedHeaders := headersOf platform m.unprotectedMap
  payload := m.payload
  signature := m.shape.signature
  recipients := m.shape.recipients.map fun items =>
    platform.jsonText (Json.toJsonValue platform (.array items))

variable {platform} {codec : CborCodec}

/-! ## Headers -/

/-- Headers are the same if all their parameters are. -/
theorem headers_ext {h h' : CoseHeaders} (heq : ∀ p : Param, p.field h = p.field h') : h = h' := by
  have inj {α : Type} {f : α → ParamValue} (hf : Function.Injective f) {o o' : Option α}
      (ho : o.map f = o'.map f) : o = o' := Option.map_injective hf ho
  apply CoseHeaders.ext
  · exact inj (fun _ _ => ParamValue.text.inj) (heq .alg)
  · exact inj (fun _ _ => ParamValue.text.inj) (heq .crit)
  · exact inj (fun _ _ => ParamValue.text.inj) (heq .contentType)
  · exact inj (fun _ _ => ParamValue.bytes.inj) (heq .kid)
  · exact inj (fun _ _ => ParamValue.bytes.inj) (heq .iv)
  · exact inj (fun _ _ => ParamValue.chain.inj) (heq .x5chain)
  · refine inj (fun x y hxy => ?_) (heq .x5t)
    obtain ⟨hhash, hthumb⟩ := ParamValue.thumbprint.inj hxy
    exact Prod.ext hhash hthumb

/-- A header map is read as the headers it stands for. -/
theorem decodeHeaderMap_eq (entries : List (Value × Value)) :
    decodeHeaderMap platform (.map entries) = headersOf platform entries := by
  apply headers_ext
  intro p
  rw [field_decodeHeaderMap]
  cases p <;> simp only [Param.label, Param.field, headersOf] <;> cases under _ entries <;> rfl

/-- The codec keeps the protected header map, if the message has one. -/
def CoseMessage.HeaderKept (codec : CborCodec) (m : CoseMessage) : Prop :=
  ∀ entries, m.protectedMap = some entries → codec.Keeps (.map entries)

/-- The protected headers are read unless they are nested too deep; then they are those of an
empty map. -/
theorem decodeProtected_eq {m : CoseMessage} (hheader : m.HeaderKept codec) {header : Bytes}
    (hwraps : m.Wraps codec header) :
    decodeProtected platform codec (.bytes header) =
      if (Value.map (m.protectedMap.getD [])).depth ≤ MAX_NESTING then
        headersOf platform (m.protectedMap.getD []) else CoseHeaders.default := by
  unfold CoseMessage.Wraps at hwraps
  cases hmap : m.protectedMap with
  | none =>
      rw [hmap] at hwraps
      subst hwraps
      rfl
  | some entries =>
      rw [hmap] at hwraps
      have hparse := (hheader entries hmap).parse_encode_eq hwraps
      rw [Option.getD_some, decodeProtected]
      by_cases hdepth : (Value.map entries).depth ≤ MAX_NESTING
      · rw [if_pos hdepth] at hparse ⊢
        rw [parse_nonempty hparse, hparse]
        simp only [Bool.false_eq_true, if_false, decodeHeaderMap_eq]
      · rw [if_neg hdepth] at hparse ⊢
        rw [hparse, ite_self]

/-! ## Messages -/

/-- A message with any number of self-describe tags around it. -/
def selfDescribed (count : Nat) (item : Value) : Value :=
  (List.replicate count 55799).foldr Value.tag item

theorem depth_selfDescribed (count : Nat) (item : Value) :
    (selfDescribed count item).depth = count + item.depth := by
  induction count with
  | zero => simp [selfDescribed]
  | succ count ih =>
      show (selfDescribed count item).depth + 1 = _
      rw [ih]
      omega

/-- The self-describe tags do not change what a message is decoded to. -/
theorem decodeValue_selfDescribed (count : Nat) (item : Value) (outerTag : Option UInt64) :
    decodeValue platform codec (selfDescribed count item) outerTag =
      decodeValue platform codec item outerTag := by
  induction count with
  | zero => rfl
  | succ count ih => exact ih

/-- A message item is decoded to its parts, but for the protected headers as they are read
and the recipients of a COSE_Mac. -/
theorem decodeValue_item (m : CoseMessage) (header : Bytes) :
    decodeValue platform codec (m.item header) none =
      .ok { m.decoded platform with
        protectedHeaders := decodeProtected platform codec (.bytes header)
        recipients := if m.shape.isMac then none else (m.decoded platform).recipients } := by
  obtain ⟨shape, protectedMap, unprotectedMap, payload⟩ := m
  cases payload <;> cases shape <;>
    simp [decodeValue, CoseMessage.item, CoseMessage.decoded, CoseMessage.payloadItem, decodeArray,
      decodeHeaderMap_eq, Shape.tag, Shape.name, Shape.trailing, Shape.signature,
      Shape.recipients, Shape.isMac, typeForTag, asBytes]

/-- Taken apart, a message gives its parts back under any number of self-describe tags, if
and only if it is no COSE_Mac, is not nested too deep, and its protected header map is not
either, unless there is nothing in it to be read.  The codec is to keep this one item and
this header map only. -/
theorem cose_decode_inverts_iff (platform : Platform) {m : CoseMessage} {header : Bytes}
    (hwraps : m.Wraps codec header) (hheader : m.HeaderKept codec) (count : Nat)
    (hkept : codec.Keeps (selfDescribed count (m.item header))) {bytes : Bytes}
    (hencode : codec.encode (selfDescribed count (m.item header)) = .ok bytes) :
    coseDecode platform codec bytes = .ok (m.decoded platform) ↔
      m.shape.isMac = false ∧ count + (m.item header).depth ≤ MAX_NESTING ∧
        ((Value.map (m.protectedMap.getD [])).depth ≤ MAX_NESTING ∨
          headersOf platform (m.protectedMap.getD []) = CoseHeaders.default) := by
  rw [coseDecode, hkept.parse_encode_eq hencode, depth_selfDescribed]
  by_cases hdepth : count + (m.item header).depth ≤ MAX_NESTING
  · have hmac : m.shape.isMac = true → m.shape.recipients.isSome = true := by
      cases m.shape <;> simp [Shape.isMac, Shape.recipients]
    rw [if_pos hdepth]
    show decodeValue platform codec (selfDescribed count (m.item header)) none = _ ↔ _
    rw [decodeValue_selfDescribed, decodeValue_item, decodeProtected_eq hheader hwraps,
      Except.ok.injEq]
    constructor
    · intro h
      have hprotected := congrArg CoseDecoded.protectedHeaders h
      have hrecipients := congrArg CoseDecoded.recipients h
      refine ⟨?_, hdepth, ?_⟩
      · -- The recipients of a COSE_Mac are dropped, and it always has some.
        by_contra hmac'
        rw [Bool.not_eq_false] at hmac'
        rw [if_pos hmac', CoseMessage.decoded, eq_comm, Option.map_eq_none_iff] at hrecipients
        have hsome := hmac hmac'
        rw [hrecipients] at hsome
        cases hsome
      · by_cases hshallow : (Value.map (m.protectedMap.getD [])).depth ≤ MAX_NESTING
        · exact .inl hshallow
        · rw [if_neg hshallow] at hprotected
          exact .inr hprotected.symm
    · rintro ⟨hmac', -, hprotected⟩
      rw [hmac', if_neg Bool.false_ne_true]
      -- Either the protected headers are read, or there are none to be read.
      have hread : (if (Value.map (m.protectedMap.getD [])).depth ≤ MAX_NESTING then
          headersOf platform (m.protectedMap.getD []) else CoseHeaders.default) =
          headersOf platform (m.protectedMap.getD []) := by
        rcases hprotected with hshallow | hnothing
        · rw [if_pos hshallow]
        · rw [hnothing, ite_self]
      rw [hread]
      rfl
  · rw [if_neg hdepth]
    constructor
    · intro h
      cases h
    · rintro ⟨-, hin, -⟩
      exact absurd hin hdepth

/-- A message of the given shape without headers, with a payload of one byte. -/
def plainMessage (shape : Shape) : CoseMessage := ⟨shape, none, [], some [1]⟩

/-- A signed message in a self-describe tag is taken apart. -/
theorem cose_decode_inverts_iff_sign1 :
    coseDecode .bare Definite.codec
        (Definite.encode (selfDescribed 1 ((plainMessage (.sign1 [2])).item []))) =
      .ok ((plainMessage (.sign1 [2])).decoded .bare) := by
  refine (cose_decode_inverts_iff .bare
    (show (plainMessage (.sign1 [2])).Wraps Definite.codec [] from rfl)
    (fun _ _ => Definite.codec_roundTrips.keeps _) 1 (Definite.codec_roundTrips.keeps _) rfl).2 ?_
  exact ⟨rfl, by decide, .inr rfl⟩

/-- The recipients of a COSE_Mac are lost. -/
theorem mac_recipients_lost :
    coseDecode .bare Definite.codec
        (Definite.encode ((plainMessage (.mac [2] [.null])).item [])) =
      .ok { (plainMessage (.mac [2] [.null])).decoded .bare with recipients := none } ∧
    coseDecode .bare Definite.codec
        (Definite.encode ((plainMessage (.mac [2] [.null])).item [])) ≠
      .ok ((plainMessage (.mac [2] [.null])).decoded .bare) := by
  have hparse : parse Definite.codec
      (Definite.encode ((plainMessage (.mac [2] [.null])).item [])) =
        .ok ((plainMessage (.mac [2] [.null])).item []) :=
    (Definite.codec_roundTrips.keeps _).parse_encode rfl (by decide)
  have hdecode : coseDecode .bare Definite.codec
      (Definite.encode ((plainMessage (.mac [2] [.null])).item [])) =
        .ok { (plainMessage (.mac [2] [.null])).decoded .bare with recipients := none } := by
    rw [coseDecode, hparse]
    exact decodeValue_item _ []
  refine ⟨hdecode, fun h => ?_⟩
  rw [hdecode] at h
  cases congrArg CoseDecoded.recipients (Except.ok.inj h)

end VgiCbor.Cose
