import VgiCbor.Core.Json
import VgiCbor.Core.ConcreteCodecs
import VgiCbor.Lib.Slice
import VgiCbor.Lib.StreamCut
import VgiCbor.Security.CoseKey

/-!
# WebAuthn authenticator data

`webauthnAuthdata` walks through the byte layout of the authenticator data: a header of
fixed size, the attested credential data behind it if its flag is set, and the extension
map behind that.  It reads back what was laid out, and it reads no byte out of bounds of any
input (`webauthn_authdata_layout`).
-/

namespace VgiCbor.Webauthn

open MachineInt BigEndian Slice CoseKey Security

/-- What ends a call: an error returned to the caller, or a panic.  Reads outside of the bytes
are panics, so that their absence is a result. -/
inductive Fault where
  | decode (e : DecodeError)
  | panic (message : String)

/-- An index or a range out of bounds. -/
def outOfBounds : Fault := .panic "index out of bounds"

def structural (m : String) : Fault := .decode (.structural m)

/-! ## UUID texts -/

def hexByte (b : UInt8) : List Char := [Nat.digitChar (b.toNat / 16), Nat.digitChar (b.toNat % 16)]

def hexText (bytes : Bytes) : List Char := bytes.flatMap hexByte

/-- `Uuid::from_bytes(..).hyphenated()` -/
def uuidText (bytes : Bytes) : String :=
  String.ofList (hexText (bytes.take 4) ++ '-' :: (hexText ((bytes.drop 4).take 2) ++ '-' ::
    (hexText ((bytes.drop 6).take 2) ++ '-' :: (hexText ((bytes.drop 8).take 2) ++ '-' ::
      hexText (bytes.drop 10)))))

/-! ## Parsing -/

structure AuthData where
  rpIdHash : Bytes
  up : Bool
  uv : Bool
  be : Bool
  bs : Bool
  at_ : Bool
  ed : Bool
  signCount : U32
  aaguid : Option String
  credId : Option Bytes
  credPublicKey : Option CoseKeyInfo
  extensions : Option String

structure Attested where
  aaguid : String
  credId : Bytes
  credPublicKey : CoseKeyInfo

variable (platform : Platform) (codec : CborCodec)

/-- Read the attested credential data from `idx` on; also the index behind it. -/
def attestedData (bytes : Bytes) (idx : Nat) : Except Fault (Attested × Nat) := do
  if bytes.length < idx + 18 then
    throw (structural "attested credential data truncated (aaguid/credIdLen)")
  let aaguidBytes ← slice outOfBounds bytes idx (idx + 16)
  if aaguidBytes.length ≠ 16 then throw (structural "bad aaguid")
  let idx := idx + 16
  let high ← index outOfBounds bytes idx
  let low ← index outOfBounds bytes (idx + 1)
  let credIdLen := ofBytes [high, low]
  let idx := idx + 2
  if bytes.length < idx + credIdLen then
    throw (structural "attested credential data truncated (credentialId)")
  let credId ← slice outOfBounds bytes idx (idx + credIdLen)
  let idx := idx + credIdLen
  -- The public key is one item; go on behind the bytes it takes up.
  let tail ← slice outOfBounds bytes idx bytes.length
  match (codec.decoder MAX_NESTING).run tail with
  | .error _ => throw (structural "bad credentialPublicKey CBOR")
  | .ok (keyVal, rest) =>
      let idx := idx + (tail.length - rest.length)
      match decodeValue keyVal with
      | .error e => throw (.decode e)
      | .ok key => pure (⟨uuidText aaguidBytes, credId, key⟩, idx)

/-- Render the extension map, if one follows. -/
def extensionText (bytes : Bytes) (ed : Bool) (idx : Nat) : Except Fault (Option String) :=
  if ed = true ∧ idx < bytes.length then do
    let tail ← slice outOfBounds bytes idx bytes.length
    match parse codec tail with
    | .ok ext => pure (some (platform.jsonText (Json.toJsonValue platform ext)))
    | .error _ => pure none
  else pure none

def webauthnAuthdata (bytes : Bytes) : Except Fault AuthData := do
  if bytes.length < 37 then
    throw (structural s!"authenticatorData is {bytes.length} bytes (need at least 37)")
  let rpIdHash ← slice outOfBounds bytes 0 32
  let flags ← index outOfBounds bytes 32
  let b0 ← index outOfBounds bytes 33
  let b1 ← index outOfBounds bytes 34
  let b2 ← index outOfBounds bytes 35
  let b3 ← index outOfBounds bytes 36
  let signCount := U32.wrap (ofBytes [b0, b1, b2, b3])
  let up := flags &&& 0x01 != 0
  let uv := flags &&& 0x04 != 0
  let be := flags &&& 0x08 != 0
  let bs := flags &&& 0x10 != 0
  let at_ := flags &&& 0x40 != 0
  let ed := flags &&& 0x80 != 0
  let (attested, idx) ←
    if at_ then do
      let (attested, idx) ← attestedData codec bytes 37
      pure (some attested, idx)
    else pure (none, 37)
  let extensions ← extensionText platform codec bytes ed idx
  pure
    { rpIdHash, up, uv, be, bs, at_, ed, signCount
      aaguid := attested.map (·.aaguid)
      credId := attested.map (·.credId)
      credPublicKey := attested.map (·.credPublicKey)
      extensions }

example : uuidText [0x1f, 0x2e, 0, 1, 2, 3, 4, 5, 6, 7, 8, 9, 10, 11, 12, 255] =
    "1f2e0001-0203-0405-0607-08090a0b0cff" := by decide

/-! ## The layout -/

/-- The bytes of an item. -/
def encoded (codec : CborCodec) (v : Value) : Bytes := (codec.encode v).toOption.getD []

/-- The parts of attested credential data. -/
structure Credential where
  aaguid : Bytes
  credId : Bytes
  key : List (Value × Value)
  aaguid_length : aaguid.length = 16
  credId_length : credId.length ≤ 65535

/-- The parts of authenticator data.  Bits 6 and 7 of the flags say which are there, and
cannot say anything else. -/
structure Parts where
  rpIdHash : Bytes
  flags : UInt8
  signCount : U32
  credential : Option Credential
  extensions : Option (List (Value × Value))
  rpIdHash_length : rpIdHash.length = 32
  credential_iff : credential.isSome = flags.toNat.testBit 6
  extensions_iff : extensions.isSome = flags.toNat.testBit 7

/-- A credential as it is laid out. -/
def Credential.bytes (codec : CborCodec) (c : Credential) : Bytes :=
  c.aaguid ++ (toBytes 2 c.credId.length ++ (c.credId ++ encoded codec (.map c.key)))

/-- The parts as they are laid out. -/
def Parts.bytes (codec : CborCodec) (p : Parts) : Bytes :=
  p.rpIdHash ++ (p.flags :: (toBytes 4 p.signCount.val.toNat ++
    ((p.credential.map (·.bytes codec)).getD [] ++
      (p.extensions.map fun entries => encoded codec (.map entries)).getD [])))

/-- What the parts say. -/
def Parts.authData (platform : Platform) (p : Parts) : AuthData where
  rpIdHash := p.rpIdHash
  up := p.flags.toNat.testBit 0
  uv := p.flags.toNat.testBit 2
  be := p.flags.toNat.testBit 3
  bs := p.flags.toNat.testBit 4
  at_ := p.flags.toNat.testBit 6
  ed := p.flags.toNat.testBit 7
  signCount := p.signCount
  aaguid := p.credential.map fun c => uuidText c.aaguid
  credId := p.credential.map (·.credId)
  credPublicKey := p.credential.map fun c => decodeEntries c.key
  extensions := p.extensions.map fun entries =>
    platform.jsonText (Json.toJsonValue platform (.map entries))

/-- The maps inside are nested no deeper than the decoder goes.  Deeper ones are dropped or
refused. -/
structure Parts.Shallow (p : Parts) : Prop where
  key : ∀ c, p.credential = some c → (Value.map c.key).depth ≤ MAX_NESTING
  extensions : ∀ entries, p.extensions = some entries → (Value.map entries).depth ≤ MAX_NESTING

/-- The codec keeps the maps inside: the key of a credential, and the extensions. -/
structure Parts.Kept (codec : CborCodec) (p : Parts) : Prop where
  key : ∀ c, p.credential = some c → codec.Keeps (.map c.key)
  extensions : ∀ entries, p.extensions = some entries → codec.Keeps (.map entries)

variable {platform codec}

theorem Parts.kept (p : Parts) (hcodec : codec.RoundTrips) : p.Kept codec :=
  ⟨fun _ _ => hcodec.keeps _, fun _ _ => hcodec.keeps _⟩

theorem encode_eq_encoded {v : Value} (hkept : codec.Keeps v) :
    codec.encode v = .ok (encoded codec v) := by
  obtain ⟨bytes, hbytes⟩ := hkept.encodes
  rw [encoded, hbytes]
  rfl

/-- An item is read off the front of what follows it. -/
theorem run_encoded {v : Value} (hkept : codec.Keeps v) {limit : Nat} (hdepth : v.depth ≤ limit)
    (rest : Bytes) : (codec.decoder limit).run (encoded codec v ++ rest) = .ok (v, rest) :=
  ItemStream.ItemDecoder.run_append
    (hkept.decode_encode _ limit (encode_eq_encoded hkept) hdepth) rest

theorem encoded_length_pos {v : Value} (hkept : codec.Keeps v) : 0 < (encoded codec v).length := by
  have hrun := run_encoded hkept (Nat.le_refl v.depth) []
  rw [List.append_nil] at hrun
  exact ItemStream.ItemDecoder.run_length_lt hrun

/-- The sections of a credential stand one behind the other, from `idx` on. -/
theorem credential_sections (c : Credential) {front : Bytes} {idx : Nat}
    (hfront : front.length = idx) {high low : UInt8} (tail : Bytes) {bytes : Bytes}
    (hbytes : bytes = front ++ (c.aaguid ++ (high :: low :: (c.credId ++ tail)))) :
    slice outOfBounds bytes idx (idx + 16) = .ok c.aaguid ∧
      index outOfBounds bytes (idx + 16) = .ok high ∧
      index outOfBounds bytes (idx + 16 + 1) = .ok low ∧
      slice outOfBounds bytes (idx + 16 + 2) (idx + 16 + 2 + c.credId.length) = .ok c.credId ∧
      slice outOfBounds bytes (idx + 16 + 2 + c.credId.length) bytes.length = .ok tail ∧
      idx + 16 + 2 + c.credId.length ≤ bytes.length := by
  -- The same bytes, cut at the positions that are read.
  have hcut₂ : bytes = (front ++ c.aaguid) ++ high :: (low :: (c.credId ++ tail)) := by
    rw [hbytes, List.append_assoc]
  have hcut₃ : bytes = (front ++ c.aaguid ++ [high, low]) ++ (c.credId ++ tail) := by
    rw [hcut₂, List.append_assoc _ [high, low]]
    rfl
  have hcut₄ : bytes = (front ++ c.aaguid ++ [high, low] ++ c.credId) ++ tail := by
    rw [hcut₃, List.append_assoc _ c.credId]
  have hlength₂ : (front ++ c.aaguid).length = idx + 16 := by
    rw [List.length_append, hfront, c.aaguid_length]
  have hlength₃ : (front ++ c.aaguid ++ [high, low]).length = idx + 16 + 2 := by
    rw [List.length_append, hlength₂]
    rfl
  have hlength₄ : (front ++ c.aaguid ++ [high, low] ++ c.credId).length =
      idx + 16 + 2 + c.credId.length := by
    rw [List.length_append, hlength₃]
  refine ⟨?_, ?_, ?_, ?_, ?_, ?_⟩
  · rw [hbytes]
    exact slice_append hfront (by rw [c.aaguid_length]) _
  · rw [hcut₂]
    exact index_append hlength₂ _ 0
  · rw [hcut₂]
    exact index_append hlength₂ _ 1
  · rw [hcut₃]
    exact slice_append hlength₃ rfl _
  · rw [hcut₄]
    exact slice_tail hlength₄ _
  · rw [hcut₄, List.length_append, hlength₄]
    exact Nat.le_add_right _ _

/-- Credential data is read back, and reading goes on behind it: the index is that of the
first byte after the key. -/
theorem attestedData_layout {c : Credential} (hkept : codec.Keeps (.map c.key))
    (hdepth : (Value.map c.key).depth ≤ MAX_NESTING) {front : Bytes} {idx : Nat}
    (hfront : front.length = idx) (rest : Bytes) :
    attestedData codec (front ++ (c.bytes codec ++ rest)) idx =
      .ok (⟨uuidText c.aaguid, c.credId, decodeEntries c.key⟩,
        idx + (c.bytes codec).length) := by
  obtain ⟨high, low, hpair⟩ : ∃ high low, toBytes 2 c.credId.length = [high, low] :=
    ⟨_, _, rfl⟩
  have hcount : ofBytes [high, low] = c.credId.length := by
    have hle := c.credId_length
    rw [← hpair, ofBytes_toBytes_of_lt (by omega)]
  have hbytes : front ++ (c.bytes codec ++ rest) = front ++ (c.aaguid ++ (high :: low ::
      (c.credId ++ (encoded codec (.map c.key) ++ rest)))) := by
    rw [Credential.bytes, hpair]
    simp
  obtain ⟨haaguid, hhigh, hlow, hcredId, htail, htotal⟩ :=
    credential_sections c hfront (encoded codec (.map c.key) ++ rest) hbytes
  generalize front ++ (c.bytes codec ++ rest) = bytes at *
  have hend : idx + 16 + 2 + c.credId.length +
      ((encoded codec (.map c.key) ++ rest).length - rest.length) =
        idx + (c.bytes codec).length := by
    simp only [Credential.bytes, List.length_append, toBytes_length, c.aaguid_length]
    omega
  unfold attestedData
  simp only [bind, Except.bind, pure, Except.pure, haaguid, hhigh, hlow, hcount, hcredId, htail,
    run_encoded hkept hdepth, decodeValue, c.aaguid_length, hend, ne_eq, not_true, if_false]
  rw [if_neg (by omega), if_neg (by omega)]

/-- A flag is a bit. -/
theorem and_mask {mask : UInt8} {k : Nat} (hmask : mask.toNat = 2 ^ k) (flags : UInt8) :
    (flags &&& mask != 0) = flags.toNat.testBit k := by
  have hand : (flags &&& mask).toNat = (flags.toNat.testBit k).toNat * 2 ^ k := by
    rw [UInt8.toNat_and, hmask, Nat.and_two_pow]
  have hpos : 0 < 2 ^ k := Nat.two_pow_pos k
  cases hbit : flags.toNat.testBit k with
  | false =>
      rw [hbit, Bool.toNat_false, Nat.zero_mul] at hand
      rw [UInt8.toNat_inj.1 (hand.trans UInt8.toNat_zero.symm)]
      rfl
  | true =>
      rw [hbit, Bool.toNat_true, Nat.one_mul] at hand
      rw [bne_iff_ne]
      intro hzero
      rw [hzero, UInt8.toNat_zero] at hand
      omega

/-- The text of the extension map, if the decoder goes into it. -/
def Parts.readExtensions (platform : Platform) (codec : CborCodec) (p : Parts) : Option String :=
  p.extensions.bind fun entries =>
    (parse codec (encoded codec (.map entries))).toOption.map fun ext =>
      platform.jsonText (Json.toJsonValue platform ext)

/-- The extension map behind a front part is read. -/
theorem extensionText_layout {p : Parts} (hkept : p.Kept codec) {front : Bytes} {idx : Nat}
    (hfront : front.length = idx) :
    extensionText platform codec
        (front ++ (p.extensions.map fun entries => encoded codec (.map entries)).getD [])
        p.extensions.isSome idx =
      .ok (p.readExtensions platform codec) := by
  rw [Parts.readExtensions]
  cases hextensions : p.extensions with
  | none => rw [extensionText, if_neg (by simp)]; rfl
  | some entries =>
      have hpos := encoded_length_pos (hkept.extensions entries hextensions)
      have hmore : idx < (front ++ encoded codec (.map entries)).length := by
        rw [List.length_append, hfront]
        omega
      rw [Option.map_some, Option.getD_some, Option.bind_some, extensionText,
        if_pos ⟨rfl, hmore⟩, slice_tail hfront]
      simp only [bind, Except.bind, pure, Except.pure]
      cases parse codec (encoded codec (.map entries)) <;> rfl

/-- The counter is read back from its four bytes. -/
theorem exists_counter (signCount : U32) :
    ∃ b0 b1 b2 b3, toBytes 4 signCount.val.toNat = [b0, b1, b2, b3] ∧
      U32.wrap (ofBytes [b0, b1, b2, b3]) = signCount := by
  have hge := signCount.ge
  have hlt := signCount.lt
  refine ⟨_, _, _, _, rfl, ?_⟩
  show U32.wrap (ofBytes (toBytes 4 signCount.val.toNat)) = signCount
  rw [ofBytes_toBytes_of_lt (by omega), Int.toNat_of_nonneg hge]
  exact Ranged.ext_val (U32.wrap_val_of_mem hge hlt)

/-- The fixed head: the hash, and five bytes behind it. -/
theorem header_sections (p : Parts) {header bytes rest : Bytes}
    (hbytes : bytes = (p.rpIdHash ++ header) ++ rest) :
    slice outOfBounds bytes 0 32 = .ok p.rpIdHash ∧
      ∀ k, k < header.length → index outOfBounds bytes (32 + k) = index outOfBounds header k := by
  rw [hbytes, List.append_assoc]
  constructor
  · exact @slice_append _ _ _ [] p.rpIdHash 0 32 rfl (by rw [p.rpIdHash_length]) _
  · intro k hk
    rw [index_append p.rpIdHash_length, index, index, List.getElem?_append_left hk]

/-- What is laid out is read back, up to an extension map that is nested too deep. -/
theorem webauthnAuthdata_parts {p : Parts} (hkept : p.Kept codec)
    (hkey : ∀ c, p.credential = some c → (Value.map c.key).depth ≤ MAX_NESTING) :
    webauthnAuthdata platform codec (p.bytes codec) =
      .ok { p.authData platform with extensions := p.readExtensions platform codec } := by
  obtain ⟨b0, b1, b2, b3, hcounter, hsignCount⟩ := exists_counter p.signCount
  have hup := @and_mask 0x01 0 rfl p.flags
  have huv := @and_mask 0x04 2 rfl p.flags
  have hbe := @and_mask 0x08 3 rfl p.flags
  have hbs := @and_mask 0x10 4 rfl p.flags
  have hat := (@and_mask 0x40 6 rfl p.flags).trans p.credential_iff.symm
  have hed := (@and_mask 0x80 7 rfl p.flags).trans p.extensions_iff.symm
  have hcut : p.bytes codec = (p.rpIdHash ++ [p.flags, b0, b1, b2, b3]) ++
      ((p.credential.map (·.bytes codec)).getD [] ++
        (p.extensions.map fun entries => encoded codec (.map entries)).getD []) := by
    rw [Parts.bytes, hcounter, List.append_assoc]
    rfl
  have hfront : (p.rpIdHash ++ [p.flags, b0, b1, b2, b3]).length = 37 := by
    rw [List.length_append, p.rpIdHash_length]
    rfl
  generalize p.bytes codec = bytes at hcut ⊢
  have hlength : ¬ bytes.length < 37 := by
    rw [hcut, List.length_append, hfront]
    omega
  obtain ⟨hhash, hheader⟩ := header_sections p hcut
  have h32 : index outOfBounds bytes 32 = .ok p.flags := hheader 0 (by simp)
  have h33 : index outOfBounds bytes 33 = .ok b0 := hheader 1 (by simp)
  have h34 : index outOfBounds bytes 34 = .ok b1 := hheader 2 (by simp)
  have h35 : index outOfBounds bytes 35 = .ok b2 := hheader 3 (by simp)
  have h36 : index outOfBounds bytes 36 = .ok b3 := hheader 4 (by simp)
  unfold webauthnAuthdata
  simp only [bind, Except.bind, pure, Except.pure, hhash, h32, h33, h34, h35, h36, hsignCount,
    hup, huv, hbe, hbs, hat, hed]
  rw [if_neg hlength]
  cases hcredential : p.credential with
  | none =>
      rw [hcredential, Option.map_none, Option.getD_none, List.nil_append] at hcut
      have hext := @extensionText_layout platform codec p hkept _ 37 hfront
      rw [← hcut] at hext
      simp only [Option.isSome_none, Bool.false_eq_true, if_false, hext, Parts.authData,
        hcredential, Option.map_none, ← p.credential_iff, ← p.extensions_iff]
  | some c =>
      rw [hcredential, Option.map_some, Option.getD_some] at hcut
      have hattested := attestedData_layout (hkept.key c hcredential) (hkey c hcredential) hfront
        ((p.extensions.map fun entries => encoded codec (.map entries)).getD [])
      rw [← hcut] at hattested
      have hbehind : (p.rpIdHash ++ [p.flags, b0, b1, b2, b3] ++ c.bytes codec).length =
          37 + (c.bytes codec).length := by
        rw [List.length_append, hfront]
      have hext := @extensionText_layout platform codec p hkept _ _ hbehind
      rw [List.append_assoc, ← hcut] at hext
      simp only [Option.isSome_some, if_true, hattested, hext, Parts.authData, hcredential,
        Option.map_some, ← p.credential_iff, ← p.extensions_iff]

/-- What is laid out is read back. -/
theorem webauthnAuthdata_layout {p : Parts} (hkept : p.Kept codec) (hdepth : p.Shallow) :
    webauthnAuthdata platform codec (p.bytes codec) = .ok (p.authData platform) := by
  have hread : p.readExtensions platform codec = (p.authData platform).extensions := by
    rw [Parts.readExtensions, Parts.authData]
    cases hextensions : p.extensions with
    | none => rfl
    | some entries =>
        have hentries := hkept.extensions entries hextensions
        rw [Option.bind_some, hentries.parse_encode (encode_eq_encoded hentries)
          (hdepth.extensions entries hextensions)]
        rfl
  rw [webauthnAuthdata_parts hkept hdepth.key, hread]

/-! ## Bounds -/

/-- The call ends with a value or an error. -/
def NoPanic {α : Type} (x : Except Fault α) : Prop := ∀ m, x ≠ .error (.panic m)

theorem NoPanic.ok {α : Type} (a : α) : NoPanic (.ok a) := fun _ h => by cases h

theorem NoPanic.decode {α : Type} (e : DecodeError) : NoPanic (.error (.decode e) : Except Fault α) :=
  fun _ h => by cases h

theorem NoPanic.bind {α β : Type} {x : Except Fault α} {f : α → Except Fault β} (hx : NoPanic x)
    (hf : ∀ a, x = .ok a → NoPanic (f a)) : NoPanic (x >>= f) := by
  cases x with
  | ok a => exact hf a rfl
  | error e =>
      intro m h
      cases h
      exact hx m rfl

theorem index_noPanic {bytes : Bytes} {i : Nat} (h : i < bytes.length) :
    NoPanic (index outOfBounds bytes i) := by
  obtain ⟨b, hb⟩ := @index_ok _ _ outOfBounds bytes i h
  rw [hb]
  exact .ok b

theorem slice_noPanic {bytes : Bytes} {i j : Nat} (hij : i ≤ j) (hj : j ≤ bytes.length) :
    NoPanic (slice outOfBounds bytes i j) := by
  rw [slice_ok hij hj]
  exact .ok _

/-- Each check covers the reads behind it. -/
theorem attestedData_noPanic (bytes : Bytes) (idx : Nat) :
    NoPanic (attestedData codec bytes idx) := by
  unfold attestedData
  by_cases hshort : bytes.length < idx + 18
  · rw [if_pos hshort]
    exact .decode _
  rw [if_neg hshort]
  refine .bind (slice_noPanic (by omega) (by omega)) fun aaguid _ => ?_
  by_cases hsixteen : aaguid.length ≠ 16
  · rw [if_pos hsixteen]
    exact .decode _
  rw [if_neg hsixteen]
  refine .bind (index_noPanic (by omega)) fun high _ => ?_
  refine .bind (index_noPanic (by omega)) fun low _ => ?_
  by_cases hcut : bytes.length < idx + 16 + 2 + ofBytes [high, low]
  · simp only [if_pos hcut]
    exact .decode _
  simp only [if_neg hcut]
  refine .bind (slice_noPanic (by omega) (by omega)) fun credId _ => ?_
  refine .bind (slice_noPanic (by omega) (Nat.le_refl _)) fun tail _ => ?_
  split
  · exact .decode _
  · split
    · exact .decode _
    · exact .ok _

theorem extensionText_noPanic (bytes : Bytes) (ed : Bool) (idx : Nat) :
    NoPanic (extensionText platform codec bytes ed idx) := by
  unfold extensionText
  split_ifs with hmore
  · refine .bind (slice_noPanic (by omega) (Nat.le_refl _)) fun tail _ => ?_
    split <;> exact .ok _
  · exact .ok _

/-- No index and no range is out of bounds, for any bytes at all. -/
theorem webauthnAuthdata_noPanic (bytes : Bytes) :
    NoPanic (webauthnAuthdata platform codec bytes) := by
  unfold webauthnAuthdata
  by_cases hshort : bytes.length < 37
  · rw [if_pos hshort]
    exact .decode _
  rw [if_neg hshort]
  refine .bind (slice_noPanic (by omega) (by omega)) fun rpIdHash _ => ?_
  refine .bind (index_noPanic (by omega)) fun flags _ => ?_
  refine .bind (index_noPanic (by omega)) fun b0 _ => ?_
  refine .bind (index_noPanic (by omega)) fun b1 _ => ?_
  refine .bind (index_noPanic (by omega)) fun b2 _ => ?_
  refine .bind (index_noPanic (by omega)) fun b3 _ => ?_
  dsimp only
  split_ifs
  · refine .bind (attestedData_noPanic bytes 37) fun result _ => .bind (.ok _) fun result _ => ?_
    exact .bind (extensionText_noPanic bytes _ _) fun extensions _ => .ok _
  · refine .bind (.ok _) fun result _ => ?_
    exact .bind (extensionText_noPanic bytes _ _) fun extensions _ => .ok _

/-! ## The result -/

/-- Parts whose maps the decoder goes into are read back from their layout, and no input
makes an index or a range go out of bounds. -/
theorem webauthn_authdata_layout (hcodec : codec.RoundTrips) :
    (∀ p : Parts, p.Shallow →
      webauthnAuthdata platform codec (p.bytes codec) = .ok (p.authData platform)) ∧
    ∀ bytes, NoPanic (webauthnAuthdata platform codec bytes) :=
  ⟨fun p => webauthnAuthdata_layout (p.kept hcodec), webauthnAuthdata_noPanic⟩

/-- An EC2 key, `ES256`. -/
def es256Key : List (Value × Value) :=
  [(.integer (smallInt 1), .integer (smallInt 2)), (.integer (smallInt 3), .integer (smallInt (-7)))]

/-- An attested credential and an extension map. -/
def attestedParts : Parts where
  rpIdHash := List.replicate 32 7
  flags := 0xc5
  signCount := U32.wrap 258
  credential := some ⟨List.replicate 16 1, [1, 2, 3], es256Key, rfl, by decide⟩
  extensions := some [(.text "credProps", .bool true)]
  rpIdHash_length := rfl
  credential_iff := by decide
  extensions_iff := by decide

theorem webauthn_authdata_layout_attested :
    webauthnAuthdata Platform.bare Definite.codec (attestedParts.bytes Definite.codec) =
        .ok (attestedParts.authData Platform.bare) ∧
      NoPanic (webauthnAuthdata Platform.bare Definite.codec (List.replicate 55 0x40)) := by
  obtain ⟨hlayout, hbounds⟩ := @webauthn_authdata_layout Platform.bare Definite.codec
    Definite.codec_roundTrips
  refine ⟨hlayout attestedParts ⟨?_, ?_⟩, hbounds _⟩
  · rintro c ⟨⟩
    decide
  · rintro entries ⟨⟩
    decide

/-- So many arrays inside each other. -/
def nested : Nat → Value
  | 0 => .null
  | n + 1 => .array [nested n]

theorem nested_depth (n : Nat) : (nested n).depth = n := by
  induction n with
  | zero => rfl
  | succ n ih => rw [nested, Value.depth, Value.depthItems, Value.depthItems, ih, Nat.max_zero]

/-- An extension map that is nested too deep. -/
def deepParts : Parts where
  rpIdHash := List.replicate 32 7
  flags := 0x80
  signCount := U32.wrap 0
  credential := none
  extensions := some [(.null, nested MAX_NESTING)]
  rpIdHash_length := rfl
  credential_iff := by decide
  extensions_iff := by decide

/-- The extension map is there, and nothing of it is returned. -/
theorem deep_extensions_dropped :
    webauthnAuthdata Platform.bare Definite.codec (deepParts.bytes Definite.codec) =
        .ok { deepParts.authData Platform.bare with extensions := none } ∧
      (deepParts.authData Platform.bare).extensions.isSome = true := by
  have hdeep : ¬ (Value.map [(.null, nested MAX_NESTING)]).depth ≤ MAX_NESTING := by
    rw [Value.depth, Value.depthEntries, Value.depthEntries, nested_depth]
    decide
  have hread : deepParts.readExtensions Platform.bare Definite.codec = none := by
    rw [Parts.readExtensions, deepParts, Option.bind_some,
      (Definite.codec_roundTrips.keeps _).parse_encode_eq
        (encode_eq_encoded (Definite.codec_roundTrips.keeps _)), if_neg hdeep]
    rfl
  refine ⟨?_, rfl⟩
  rw [webauthnAuthdata_parts (deepParts.kept Definite.codec_roundTrips) (fun c h => by cases h), hread]

end VgiCbor.Webauthn
