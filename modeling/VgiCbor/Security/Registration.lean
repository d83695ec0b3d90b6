import VgiCbor.Security.Attestation

/-!
# Registrations

A registration carries its public key inside authenticator data, and this as a byte string
inside an attestation object.  Whatever the parts are, the three decoders give them back, in
whatever order the entries of the object and of its statement stand; in the key its type comes
first, as in the canonical form (`registration_read_back`).
-/

namespace VgiCbor.Webauthn

open MachineInt LabelScan Security CoseKey

/-! ## Public keys -/

/-- The parameters of a key, by its type. -/
inductive KeyParams where
  | okp (crv : I64) (x : Bytes)
  | ec2 (crv : I64) (x y : Bytes)
  | rsa (n e : Bytes)

namespace KeyParams

/-- The number of the key type. -/
def kty : KeyParams → Int
  | .okp _ _ => 1
  | .ec2 _ _ _ => 2
  | .rsa _ _ => 3

def entries : KeyParams → List (Value × Value)
  | .okp crv x =>
      [(.integer (smallInt (-1)), .integer (Integer.ofI64 crv)),
        (.integer (smallInt (-2)), .bytes x)]
  | .ec2 crv x y =>
      [(.integer (smallInt (-1)), .integer (Integer.ofI64 crv)),
        (.integer (smallInt (-2)), .bytes x), (.integer (smallInt (-3)), .bytes y)]
  | .rsa n e =>
      [(.integer (smallInt (-1)), .bytes n), (.integer (smallInt (-2)), .bytes e)]

end KeyParams

/-- A public key, with or without an identifier. -/
structure PublicKey where
  kid : Option Bytes
  alg : I64
  params : KeyParams

namespace PublicKey

/-- The entry of the key type. -/
def typeEntry (key : PublicKey) : Value × Value :=
  (.integer (smallInt 1), .integer (smallInt key.params.kty))

/-- The entries behind the key type. -/
def others (key : PublicKey) : List (Value × Value) :=
  (key.kid.map fun kid => (Value.integer (smallInt 2), Value.bytes kid)).toList ++
    (.integer (smallInt 3), .integer (Integer.ofI64 key.alg)) :: key.params.entries

/-- What the key says. -/
def info (key : PublicKey) : CoseKeyInfo :=
  let common : CoseKeyInfo :=
    { CoseKeyInfo.default with
      kty := some (ktyName (I64.wrap key.params.kty))
      kid := key.kid
      alg := some (algName key.alg) }
  match key.params with
  | .okp crv x => { common with crv := some (crvName crv), x := some x }
  | .ec2 crv x y => { common with crv := some (crvName crv), x := some x, y := some y }
  | .rsa n e => { common with n := some n, e := some e }

theorem others_nodup (key : PublicKey) : (key.others.map Prod.fst).Nodup := by
  obtain ⟨kid, alg, params⟩ := key
  cases kid <;> cases params <;> simp [others, KeyParams.entries]
  all_goals decide

theorem asInt_ofI64 (n : I64) : asInt (.integer (Integer.ofI64 n)) = some n := by
  simp [asInt]

theorem hasLabel_typeEntry (key : PublicKey) : hasLabel 1 key.typeEntry = true := rfl

/-- The key type is under no other entry. -/
theorem hasLabel_others {key : PublicKey} {rest : List (Value × Value)}
    (h : rest.Perm key.others) : ∀ entry ∈ rest, hasLabel 1 entry = false := by
  have hall : (key.others.all fun entry => !hasLabel 1 entry) = true := by
    obtain ⟨kid, alg, params⟩ := key
    cases kid <;> cases params <;> rfl
  intro entry hmem
  simpa using List.all_eq_true.1 hall entry (h.mem_iff.1 hmem)

theorem under_type {key : PublicKey} {rest : List (Value × Value)} (h : rest.Perm key.others) :
    under 1 (key.typeEntry :: rest) = some key.typeEntry.2 := by
  rw [under, last?_cons, last?_eq_none_iff.2 (hasLabel_others h), if_pos key.hasLabel_typeEntry]
  rfl

/-- What the key holds under another label, in every order. -/
theorem under_key {key : PublicKey} {rest : List (Value × Value)} (h : rest.Perm key.others)
    {l : Int} (hne : 1 ≠ l) : under l (key.typeEntry :: rest) = under l key.others := by
  have hsplit := under_split key.hasLabel_typeEntry hne [] rest
  rw [List.nil_append] at hsplit
  rw [hsplit, under_perm key.others_nodup h]
  exact Option.or_none

theorem under_kid (key : PublicKey) : (under 2 key.others).bind asBytes = key.kid := by
  obtain ⟨kid, alg, params⟩ := key
  cases kid <;> cases params <;> rfl

theorem under_alg (key : PublicKey) : (under 3 key.others).bind asInt = some key.alg := by
  rw [← asInt_ofI64 key.alg]
  obtain ⟨kid, alg, params⟩ := key
  cases kid <;> cases params <;> rfl

/-- A key of another type than RSA is read label by label. -/
theorem decodeEntries_key {key : PublicKey} {rest : List (Value × Value)}
    (h : rest.Perm key.others) (hrsa : isRsa (asInt key.typeEntry.2) = false) :
    decodeEntries (key.typeEntry :: rest) =
      ⟨(asInt key.typeEntry.2).map ktyName, key.kid, some (algName key.alg),
        (intUnder (-1) key.others).map crvName, bytesUnder (-2) key.others,
        bytesUnder (-3) key.others, none, none⟩ := by
  have htype : ∀ a ∈ key.typeEntry :: rest, hasLabel 1 a = true → isRsa (asInt a.2) = false := by
    rintro a ha hlabel
    rcases List.mem_cons.1 ha with rfl | ha
    · exact hrsa
    · rw [hasLabel_others h a ha] at hlabel
      cases hlabel
  rw [decodeEntries_ec htype]
  simp only [intUnder, bytesUnder, under_type h, under_key h (show (1 : Int) ≠ 2 by decide),
    under_key h (show (1 : Int) ≠ 3 by decide), under_key h (show (1 : Int) ≠ -1 by decide),
    under_key h (show (1 : Int) ≠ -2 by decide), under_key h (show (1 : Int) ≠ -3 by decide),
    under_kid, under_alg]
  rfl

/-- An RSA key is read with its modulus and its exponent. -/
theorem decodeEntries_rsaKey {key : PublicKey} {rest : List (Value × Value)}
    (h : rest.Perm key.others) (hrsa : isRsa (asInt key.typeEntry.2) = true) :
    decodeEntries (key.typeEntry :: rest) =
      ⟨(asInt key.typeEntry.2).map ktyName, key.kid, some (algName key.alg), none, none, none,
        bytesUnder (-1) key.others, bytesUnder (-2) key.others⟩ := by
  have hback (l : Int) : under l rest = under l key.others := under_perm key.others_nodup h l
  have hread := @decodeEntries_rsa [] rest _ key.hasLabel_typeEntry hrsa (by simp)
    (hasLabel_others h)
  rw [List.nil_append] at hread
  rw [hread]
  simp only [intUnder, bytesUnder, under_type h, under_key h (show (1 : Int) ≠ 2 by decide),
    under_key h (show (1 : Int) ≠ 3 by decide), under_key h (show (1 : Int) ≠ -1 by decide),
    under_key h (show (1 : Int) ≠ -2 by decide), hback, under_kid, under_alg, ite_self]
  rfl

/-- A key whose type comes first is read back, whatever order its other entries are in. -/
theorem decodeEntries_info {key : PublicKey} {rest : List (Value × Value)}
    (h : rest.Perm key.others) : decodeEntries (key.typeEntry :: rest) = key.info := by
  obtain ⟨kid, alg, params⟩ := key
  cases params with
  | okp crv x =>
      have hcrv : intUnder (-1) (others ⟨kid, alg, .okp crv x⟩) = some crv := by
        rw [← asInt_ofI64 crv]
        cases kid <;> rfl
      rw [decodeEntries_key h rfl, hcrv]
      cases kid <;> rfl
  | ec2 crv x y =>
      have hcrv : intUnder (-1) (others ⟨kid, alg, .ec2 crv x y⟩) = some crv := by
        rw [← asInt_ofI64 crv]
        cases kid <;> rfl
      rw [decodeEntries_key h rfl, hcrv]
      cases kid <;> rfl
  | rsa n e =>
      rw [decodeEntries_rsaKey h rfl]
      cases kid <;> rfl

theorem depth_key {key : PublicKey} {rest : List (Value × Value)} (h : rest.Perm key.others) :
    (Value.map (key.typeEntry :: rest)).depth ≤ 1 := by
  have hflat : ∀ e ∈ key.typeEntry :: key.others, e.1.depth = 0 ∧ e.2.depth = 0 := by
    obtain ⟨kid, alg, params⟩ := key
    cases kid <;> cases params <;>
      simp [typeEntry, others, KeyParams.entries, Value.depth]
  refine Definite.depth_map_le ?_
  intro e hmem
  have hkey := hflat e ((h.cons key.typeEntry).mem_iff.1 hmem)
  rw [hkey.1, hkey.2]
  exact ⟨le_rfl, le_rfl⟩

end PublicKey

/-! ## Registrations -/

/-- What a registration is built from.  The statement may have any further entries, under
other keys than those of the typed columns. -/
structure Registration where
  fmt : String
  rpIdHash : Bytes
  flags : UInt8
  signCount : U32
  aaguid : Bytes
  credId : Bytes
  key : PublicKey
  extensions : Option (List (Value × Value))
  alg : Option I64
  sig : Option Bytes
  x5c : Option (List Bytes)
  details : List (Value × Value)
  rpIdHash_length : rpIdHash.length = 32
  aaguid_length : aaguid.length = 16
  credId_length : credId.length ≤ 65535
  attested : flags.toNat.testBit 6 = true
  extensions_iff : extensions.isSome = flags.toNat.testBit 7
  extensions_depth : ∀ entries, extensions = some entries → (Value.map entries).depth ≤ MAX_NESTING
  details_keys : ∀ e ∈ details, ∀ name ∈ COLUMN_KEYS, e.1 ≠ .text name
  details_depth : ∀ e ∈ details, e.1.depth + 2 ≤ MAX_NESTING ∧ e.2.depth + 2 ≤ MAX_NESTING

namespace Registration

/-- The parts of the authenticator data, with the entries of the key behind its type. -/
def parts (r : Registration) (rest : List (Value × Value)) : Parts where
  rpIdHash := r.rpIdHash
  flags := r.flags
  signCount := r.signCount
  credential := some ⟨r.aaguid, r.credId, r.key.typeEntry :: rest, r.aaguid_length, r.credId_length⟩
  extensions := r.extensions
  rpIdHash_length := r.rpIdHash_length
  credential_iff := r.attested.symm
  extensions_iff := r.extensions_iff

/-- The values of the typed columns in the statement. -/
def column (r : Registration) (name : String) : Option Value :=
  if name = "alg" then r.alg.map fun alg => .integer (Integer.ofI64 alg)
  else if name = "sig" then r.sig.map .bytes
  else if name = "x5c" then r.x5c.map fun chain => .array (chain.map .bytes)
  else none

/-- The entries of the statement. -/
def statement (r : Registration) : List (Value × Value) :=
  (COLUMN_KEYS.flatMap fun name => ((r.column name).map fun v => (Value.text name, v)).toList) ++
    r.details

/-- The entries of the attestation object. -/
def object (r : Registration) (codec : CborCodec) (rest st : List (Value × Value)) :
    List (Value × Value) :=
  [(.text "fmt", .text r.fmt), (.text "attStmt", .map st),
    (.text "authData", .bytes ((r.parts rest).bytes codec))]

/-- The row of the registration, with the statement in the order it was given. -/
def row (r : Registration) (platform : Platform) (st : List (Value × Value)) : AttestationRow where
  fmt := r.fmt
  aaguid := some (uuidText r.aaguid)
  signCount := r.signCount
  rpIdHash := r.rpIdHash
  up := r.flags.toNat.testBit 0
  uv := r.flags.toNat.testBit 2
  credId := some r.credId
  alg := r.alg.map algName
  sig := r.sig
  x5c := r.x5c.getD []
  attStmt := platform.jsonText (Json.toJsonValue platform (.map st))

/-- A certificate chain is an array of byte strings, and all else is flat. -/
theorem depth_column (r : Registration) {name : String} {v : Value} (h : r.column name = some v) :
    v.depth ≤ 1 := by
  unfold column at h
  split_ifs at h
  · obtain ⟨alg, -, rfl⟩ := Option.map_eq_some_iff.1 h
    exact Nat.zero_le _
  · obtain ⟨sig, -, rfl⟩ := Option.map_eq_some_iff.1 h
    exact Nat.zero_le _
  · obtain ⟨chain, -, rfl⟩ := Option.map_eq_some_iff.1 h
    refine Definite.depth_array_le ?_
    intro item hitem
    obtain ⟨b, -, rfl⟩ := List.mem_map.1 hitem
    exact le_rfl

/-- The typed columns say what the statement was built from. -/
theorem columns_read (r : Registration) :
    algColumn (r.column "alg") = r.alg.map algName ∧ sigColumn (r.column "sig") = r.sig ∧
      x5cColumn (r.column "x5c") = r.x5c.getD [] := by
  have halg : r.column "alg" = r.alg.map fun alg => .integer (Integer.ofI64 alg) := rfl
  have hsig : r.column "sig" = r.sig.map .bytes := rfl
  have hx5c : r.column "x5c" = r.x5c.map fun chain => .array (chain.map .bytes) := rfl
  refine ⟨?_, ?_, ?_⟩
  · rw [halg]
    cases r.alg with
    | none => rfl
    | some alg => simp [algColumn]
  · rw [hsig]
    cases r.sig <;> rfl
  · rw [hx5c]
    cases r.x5c with
    | none => rfl
    | some chain =>
        have hall : (chain.map Value.bytes).filterMap asBytes = chain := by
          rw [List.filterMap_map]
          exact List.filterMap_some
        exact hall

end Registration

theorem isTextKey_iff {key : String} {e : Value × Value} :
    isTextKey key e = true ↔ e.1 = .text key := by
  obtain ⟨k, v⟩ := e
  cases k <;> simp [isTextKey]

/-- A text key with one value at most has that value, wherever its entry stands.  Other
entries do not matter. -/
theorem mapGet_of_mem_iff {entries : List (Value × Value)} {key : String} {value : Option Value}
    (h : ∀ v, (Value.text key, v) ∈ entries ↔ value = some v) : mapGet entries key = value := by
  cases hfound : mapGet entries key with
  | some v =>
      obtain ⟨e, hmem, he⟩ := List.exists_of_findSome?_eq_some hfound
      split_ifs at he with hkey
      cases he
      rw [(h e.2).1]
      rwa [← isTextKey_iff.1 hkey]
  | none =>
      cases hvalue : value with
      | none => rfl
      | some v =>
          have hmiss := List.findSome?_eq_none_iff.1 hfound _ ((h v).2 hvalue)
          rw [if_pos (isTextKey_iff.2 rfl)] at hmiss
          cases hmiss

variable {platform : Platform} {codec : CborCodec}

theorem mem_object {r : Registration} {rest st object : List (Value × Value)}
    (hobject : object.Perm (r.object codec rest st)) :
    mapGet object "fmt" = some (.text r.fmt) ∧ mapGet object "attStmt" = some (.map st) ∧
      mapGet object "authData" = some (.bytes ((r.parts rest).bytes codec)) := by
  refine ⟨mapGet_of_mem_iff fun v => ?_, mapGet_of_mem_iff fun v => ?_,
    mapGet_of_mem_iff fun v => ?_⟩ <;>
    simp [hobject.mem_iff, Registration.object, eq_comm]

/-- The typed columns are under their keys in every order of the statement. -/
theorem mapGet_statement {r : Registration} {st : List (Value × Value)}
    (hst : st.Perm r.statement) {name : String} (hname : name ∈ COLUMN_KEYS) :
    mapGet st name = r.column name := by
  refine mapGet_of_mem_iff fun v => ?_
  have hdetails : (Value.text name, v) ∉ r.details := fun hmem =>
    r.details_keys _ hmem name hname rfl
  rw [hst.mem_iff, Registration.statement, List.mem_append, or_iff_left hdetails, List.mem_flatMap]
  constructor
  · rintro ⟨name', -, hmem⟩
    obtain ⟨w, hw, heq⟩ := Option.map_eq_some_iff.1 (Option.mem_toList.1 hmem)
    cases heq
    exact hw
  · intro hv
    exact ⟨name, hname, by simp [hv]⟩

theorem depth_statement {r : Registration} {st : List (Value × Value)}
    (hst : st.Perm r.statement) : (Value.map st).depth < MAX_NESTING := by
  have hentries : ∀ e ∈ st, e.1.depth ≤ MAX_NESTING - 2 ∧ e.2.depth ≤ MAX_NESTING - 2 := by
    intro e hmem
    rcases List.mem_append.1 (hst.mem_iff.1 hmem) with hcolumn | hdetail
    · obtain ⟨name, -, hname⟩ := List.mem_flatMap.1 hcolumn
      obtain ⟨v, hv, rfl⟩ := Option.map_eq_some_iff.1 (Option.mem_toList.1 hname)
      exact ⟨Nat.zero_le _, (r.depth_column hv).trans (by decide)⟩
    · have hbound := r.details_depth e hdetail
      omega
  exact Nat.lt_of_le_of_lt (Definite.depth_map_le hentries) (by decide)

/-- The object holds nothing deeper than the statement. -/
theorem depth_object {r : Registration} {rest st object : List (Value × Value)}
    (hst : st.Perm r.statement) (hobject : object.Perm (r.object codec rest st)) :
    (Value.map object).depth ≤ MAX_NESTING := by
  have hstatement := depth_statement hst
  have hentries : ∀ e ∈ object, e.1.depth ≤ MAX_NESTING - 1 ∧ e.2.depth ≤ MAX_NESTING - 1 := by
    intro e hmem
    simp only [hobject.mem_iff, Registration.object, List.mem_cons, List.not_mem_nil,
      or_false] at hmem
    rcases hmem with rfl | rfl | rfl
    · exact ⟨Nat.zero_le _, Nat.zero_le _⟩
    · exact ⟨Nat.zero_le _, Nat.le_sub_one_of_lt hstatement⟩
    · exact ⟨Nat.zero_le _, Nat.zero_le _⟩
  exact Definite.depth_map_le hentries

/-- What a registration is built from is read back, in whatever order the entries of the
object, of the statement and of the key behind its type stand, if the codec keeps the object
and the maps in its authenticator data. -/
theorem registration_read_back (platform : Platform) (r : Registration)
    {rest st object : List (Value × Value)} (hrest : rest.Perm r.key.others)
    (hst : st.Perm r.statement) (hobject : object.Perm (r.object codec rest st))
    (hparts : (r.parts rest).Kept codec) (hkept : codec.Keeps (.map object)) :
    webauthnAttestation platform codec (encoded codec (.map object)) = .ok (r.row platform st) ∧
      ∃ auth, webauthnAuthdata platform codec ((r.parts rest).bytes codec) = .ok auth ∧
        auth.credId = some r.credId ∧ auth.credPublicKey = some r.key.info ∧
        coseKey codec (encoded codec (.map (r.key.typeEntry :: rest))) = .ok r.key.info := by
  have hkey := PublicKey.decodeEntries_info hrest
  have hkeyDepth : (Value.map (r.key.typeEntry :: rest)).depth ≤ MAX_NESTING :=
    (PublicKey.depth_key hrest).trans (by decide)
  have hauth := @webauthnAuthdata_layout platform codec (r.parts rest) hparts
    ⟨fun c hc => by cases hc; exact hkeyDepth, r.extensions_depth⟩
  have hkeyKept := hparts.key _ rfl
  have hparse := hkept.parse_encode (encode_eq_encoded hkept) (depth_object hst hobject)
  obtain ⟨hfmt, hstmt, hdata⟩ := mem_object hobject
  constructor
  · have hcolumn (name : String) (hname : name ∈ COLUMN_KEYS) := mapGet_statement hst hname
    simp only [webauthnAttestation, hparse, Except.mapError, bind, Except.bind, hfmt, hdata, hauth,
      hstmt, hcolumn "alg" (by decide), hcolumn "sig" (by decide), hcolumn "x5c" (by decide),
      r.columns_read]
    rfl
  · refine ⟨_, hauth, rfl, congrArg some hkey, ?_⟩
    rw [coseKey, hkeyKept.parse_encode (encode_eq_encoded hkeyKept) hkeyDepth]
    exact congrArg Except.ok hkey

/-- A detail of the statement. -/
def tpmDetails : List (Value × Value) := [(.text "ver", .text "2.0")]

theorem tpmDetails_keys : ∀ e ∈ tpmDetails, ∀ name ∈ COLUMN_KEYS, e.1 ≠ .text name := by
  simp [tpmDetails, COLUMN_KEYS]

theorem tpmDetails_depth :
    ∀ e ∈ tpmDetails, e.1.depth + 2 ≤ MAX_NESTING ∧ e.2.depth + 2 ≤ MAX_NESTING := by
  simp [tpmDetails, Value.depth, MAX_NESTING]

/-- An RSA key, and a statement with a detail of its own. -/
def tpmRegistration : Registration where
  fmt := "tpm"
  rpIdHash := List.replicate 32 9
  flags := 0x45
  signCount := U32.wrap 3
  aaguid := List.replicate 16 2
  credId := [4, 5]
  key := ⟨none, I64.wrap (-257), .rsa [187] [1, 0, 1]⟩
  extensions := none
  alg := some (I64.wrap (-257))
  sig := some [5]
  x5c := some [[6], [7]]
  details := tpmDetails
  rpIdHash_length := rfl
  aaguid_length := rfl
  credId_length := by decide
  attested := by decide
  extensions_iff := by decide
  extensions_depth _ h := absurd h (Option.some_ne_none _).symm
  details_keys := tpmDetails_keys
  details_depth := tpmDetails_depth

/-- The statement back to front. -/
theorem registration_read_back_tpm :
    ∃ row auth, webauthnAttestation .bare Definite.codec (encoded Definite.codec
        (.map (tpmRegistration.object Definite.codec tpmRegistration.key.others
          tpmRegistration.statement.reverse))) = .ok row ∧
      row.sig = some [5] ∧ row.x5c = [[6], [7]] ∧
      webauthnAuthdata .bare Definite.codec
        ((tpmRegistration.parts tpmRegistration.key.others).bytes Definite.codec) = .ok auth ∧
      auth.credPublicKey = some ⟨some "RSA", none, some "RS256", none, none, none, some [187],
        some [1, 0, 1]⟩ := by
  obtain ⟨hrow, auth, hauth, -, hkey, -⟩ := registration_read_back .bare tpmRegistration
    (List.Perm.refl _) (List.reverse_perm _) (List.Perm.refl _)
    (Parts.kept _ Definite.codec_roundTrips) (Definite.codec_roundTrips.keeps _)
  exact ⟨_, auth, hrow, rfl, rfl, hauth, hkey⟩

end VgiCbor.Webauthn
