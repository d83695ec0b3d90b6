import VgiCbor.Core.CanonicalJson
import VgiCbor.Security.Webauthn

/-!
# WebAuthn attestation objects

`webauthnAttestation` shreds the attestation statement into typed columns and also renders
it as JSON.  The columns are read from the first entry with a text key, and the JSON shows
the last entry whose key is rendered so.  They speak of the same entries exactly if for each
column these are one (`columns_agree_iff`).
-/

namespace VgiCbor.Webauthn

open MachineInt LabelScan SortedMap Security Json

variable (platform : Platform) (codec : CborCodec)

/-- One row. -/
structure AttestationRow where
  fmt : String
  aaguid : Option String
  signCount : U32
  rpIdHash : Bytes
  up : Bool
  uv : Bool
  credId : Option Bytes
  alg : Option String
  sig : Option Bytes
  x5c : List Bytes
  attStmt : String

/-- The key of the entry is the text. -/
def isTextKey (key : String) (e : Value × Value) : Bool :=
  match e.1 with
  | .text s => s == key
  | _ => false

/-- The value of the first entry with a text key. -/
def mapGet (entries : List (Value × Value)) (key : String) : Option Value :=
  entries.findSome? fun e => if isTextKey key e then some e.2 else none

/-- A certificate chain: the byte strings of an array, or one byte string. -/
def decodeX5c : Value → List Bytes
  | .array items => items.filterMap asBytes
  | .bytes b => [b]
  | _ => []

/-- The `alg` column, from the value under the key. -/
def algColumn : Option Value → Option String
  | some (.integer i) => (Ranged.tryFrom _ _ i.val : Option I64).map algName
  | _ => none

/-- The `sig` column. -/
def sigColumn : Option Value → Option Bytes
  | some s => asBytes s
  | none => none

/-- The `x5c` column. -/
def x5cColumn : Option Value → List Bytes
  | some c => decodeX5c c
  | none => []

/-- Decode an attestation object. -/
def webauthnAttestation (bytes : Bytes) : Except Fault AttestationRow := do
  let value ← (parse codec bytes).mapError .decode
  match value with
  | .map entries =>
      match mapGet entries "fmt" with
      | some (.text fmt) =>
          match mapGet entries "authData" with
          | some (.bytes authDataBytes) =>
              let auth ← webauthnAuthdata platform codec authDataBytes
              let attStmt := mapGet entries "attStmt"
              let attStmtJson :=
                match attStmt with
                | some v => platform.jsonText (toJsonValue platform v)
                | none => "\x7b\x7d"
              let st :=
                match attStmt with
                | some (.map st) => st
                | _ => []
              pure
                { fmt, aaguid := auth.aaguid, signCount := auth.signCount
                  rpIdHash := auth.rpIdHash, up := auth.up, uv := auth.uv
                  credId := auth.credId
                  alg := algColumn (mapGet st "alg")
                  sig := sigColumn (mapGet st "sig")
                  x5c := x5cColumn (mapGet st "x5c")
                  attStmt := attStmtJson }
          | _ => throw (structural "attestation object missing authData")
      | _ => throw (structural "attestation object missing fmt")
  | _ => throw (structural "attestation object is not a CBOR map")

/-! ## The entry a column is read from and the entry that is shown -/

/-- The keys of the typed columns. -/
def COLUMN_KEYS : List String := ["alg", "sig", "x5c"]

/-- The key of the entry is rendered as the text. -/
def rendersAs (platform : Platform) (key : String) (e : Value × Value) : Bool :=
  jsonKey platform e.1 = key

/-- Where the entry stands that a typed column is read from. -/
def typedAt (key : String) (st : List (Value × Value)) : Option Nat := st.findIdx? (isTextKey key)

/-- Where the entry stands that the JSON object shows under a key. -/
def shownPosition (platform : Platform) (key : String) (st : List (Value × Value)) : Option Nat :=
  lastIdx? (rendersAs platform key) st

/-- The value that the JSON object shows under a key. -/
def shownValue (platform : Platform) (key : String) (st : List (Value × Value)) : Option Value :=
  (last? (rendersAs platform key) st).map Prod.snd

/-- Each column is read from the entry that is shown under its key, and says what that
entry says. -/
structure ColumnsAgree (platform : Platform) (st : List (Value × Value)) (row : AttestationRow) :
    Prop where
  sameEntry : ∀ key ∈ COLUMN_KEYS, typedAt key st = shownPosition platform key st
  alg : row.alg = algColumn (shownValue platform "alg" st)
  sig : row.sig = sigColumn (shownValue platform "sig" st)
  x5c : row.x5c = x5cColumn (shownValue platform "x5c" st)

/-- No entry is rendered under the key, or the first entry with the text as its key is the
last entry that is. -/
def Unambiguous (platform : Platform) (key : String) (st : List (Value × Value)) : Prop :=
  (∀ e ∈ st, rendersAs platform key e = false) ∨
    FirstIsLast (isTextKey key) (rendersAs platform key) st

variable {platform codec}

/-- An attestation object never makes the decoder panic. -/
theorem webauthnAttestation_noPanic (bytes : Bytes) :
    NoPanic (webauthnAttestation platform codec bytes) := by
  unfold webauthnAttestation
  apply NoPanic.bind
  · cases parse codec bytes with
    | ok value => exact .ok value
    | error e => exact .decode e
  intro value _
  split
  · split
    · split
      · exact .bind (webauthnAuthdata_noPanic _) fun auth _ => .ok _
      · exact .decode _
    · exact .decode _
  · exact .decode _

/-- A text key is rendered as it is. -/
theorem rendersAs_of_isTextKey {key : String} (e : Value × Value) (h : isTextKey key e = true) :
    rendersAs platform key e = true := by
  obtain ⟨k, v⟩ := e
  cases k with
  | text s => exact decide_eq_true (eq_of_beq h)
  | _ => cases h

theorem mapGet_eq (entries : List (Value × Value)) (key : String) :
    mapGet entries key = ((typedAt key entries).bind fun i => entries[i]?).map Prod.snd := by
  rw [typedAt, ← List.find?_eq_bind_findIdx?_getElem?, mapGet]
  induction entries with
  | nil => rfl
  | cons e entries ih =>
      rw [List.findSome?_cons, List.find?_cons, ih]
      cases isTextKey key e <;> rfl

theorem shownValue_eq (st : List (Value × Value)) (key : String) :
    shownValue platform key st =
      ((shownPosition platform key st).bind fun i => st[i]?).map Prod.snd := by
  rw [shownValue, last?_eq_lastIdx?, shownPosition]

/-- Where the positions are the same, so are the values. -/
theorem mapGet_eq_shownValue {key : String} {st : List (Value × Value)}
    (h : typedAt key st = shownPosition platform key st) :
    mapGet st key = shownValue platform key st := by
  rw [mapGet_eq, h, ← shownValue_eq]

theorem typedAt_eq_iff {key : String} {st : List (Value × Value)} :
    typedAt key st = shownPosition platform key st ↔ Unambiguous platform key st :=
  findIdx?_eq_lastIdx?_iff rendersAs_of_isTextKey

/-! ## Accepted objects -/

/-- The columns and the JSON of an accepted object with a statement map. -/
theorem attestation_columns {bytes : Bytes} {entries st : List (Value × Value)}
    {row : AttestationRow} (hparse : parse codec bytes = .ok (.map entries))
    (hst : mapGet entries "attStmt" = some (.map st))
    (hrow : webauthnAttestation platform codec bytes = .ok row) :
    row.alg = algColumn (mapGet st "alg") ∧ row.sig = sigColumn (mapGet st "sig") ∧
      row.x5c = x5cColumn (mapGet st "x5c") ∧
      row.attStmt = platform.jsonText (toJsonValue platform (.map st)) := by
  unfold webauthnAttestation at hrow
  rw [hparse] at hrow
  simp only [Except.mapError, bind, Except.bind, pure, Except.pure, hst] at hrow
  split at hrow
  · split at hrow
    · split at hrow
      · cases hrow
      · cases hrow
        exact ⟨rfl, rfl, rfl, rfl⟩
    · cases hrow
  · cases hrow

/-- The members of the JSON object are the shown values. -/
theorem mem_members_iff {st : List (Value × Value)} {key : String} {j : Json} :
    (key, j) ∈ toJsonMembers platform st [] ↔
      (shownValue platform key st).map (toJsonValue platform) = some j := by
  rw [toJsonMembers_eq_fill, mem_fill_iff, shownValue, Option.map_map]
  rfl

/-- The JSON column of an accepted object shows the shown values, and the typed columns agree
with it if and only if none of their keys is ambiguous. -/
theorem columns_agree_iff {bytes : Bytes} {entries st : List (Value × Value)}
    {row : AttestationRow} (hparse : parse codec bytes = .ok (.map entries))
    (hst : mapGet entries "attStmt" = some (.map st))
    (hrow : webauthnAttestation platform codec bytes = .ok row) :
    row.attStmt = platform.jsonText (.object (toJsonMembers platform st [])) ∧
      (∀ key j, (key, j) ∈ toJsonMembers platform st [] ↔
        (shownValue platform key st).map (toJsonValue platform) = some j) ∧
      (ColumnsAgree platform st row ↔ ∀ key ∈ COLUMN_KEYS, Unambiguous platform key st) := by
  obtain ⟨halg, hsig, hx5c, hjson⟩ := attestation_columns hparse hst hrow
  refine ⟨by rw [hjson, toJsonValue], fun key j => mem_members_iff, ?_⟩
  constructor
  · exact fun h key hkey => typedAt_eq_iff.1 (h.sameEntry key hkey)
  · intro h
    have hsame (key : String) (hkey : key ∈ COLUMN_KEYS) :=
      mapGet_eq_shownValue (typedAt_eq_iff.2 (h key hkey))
    refine ⟨fun key hkey => typedAt_eq_iff.2 (h key hkey), ?_, ?_, ?_⟩
    · rw [halg, hsame "alg" (by decide)]
    · rw [hsig, hsame "sig" (by decide)]
    · rw [hx5c, hsame "x5c" (by decide)]

/-! ## Concrete objects -/

/-- Authenticator data without a credential. -/
def plainParts : Parts where
  rpIdHash := List.replicate 32 0
  flags := 1
  signCount := U32.wrap 0
  credential := none
  extensions := none
  rpIdHash_length := rfl
  credential_iff := by decide
  extensions_iff := by decide

/-- The entries of an attestation object with a given statement. -/
def packedObject (st : List (Value × Value)) : List (Value × Value) :=
  [(.text "fmt", .text "packed"),
    (.text "authData", .bytes (plainParts.bytes Definite.codec)), (.text "attStmt", .map st)]

/-- The object is accepted. -/
theorem packedObject_accepted {st : List (Value × Value)}
    (hdepth : (Value.map (packedObject st)).depth ≤ MAX_NESTING) :
    parse Definite.codec (Definite.encode (.map (packedObject st))) =
        .ok (.map (packedObject st)) ∧
      ∃ row, webauthnAttestation Platform.bare Definite.codec
        (Definite.encode (.map (packedObject st))) = .ok row := by
  have hkept := Definite.codec_roundTrips.keeps (.map (packedObject st))
  have hparse : parse Definite.codec (Definite.encode (.map (packedObject st))) = _ :=
    hkept.parse_encode rfl hdepth
  have hauth := @webauthnAuthdata_layout Platform.bare _ _
    (plainParts.kept Definite.codec_roundTrips) ⟨fun c h => (by cases h), fun entries h => (by cases h)⟩
  refine ⟨hparse, ?_⟩
  have hfmt : mapGet (packedObject st) "fmt" = some (.text "packed") := rfl
  have hdata : mapGet (packedObject st) "authData" =
      some (.bytes (plainParts.bytes Definite.codec)) := rfl
  simp only [webauthnAttestation, hparse, Except.mapError, bind, Except.bind, hfmt, hdata, hauth]
  exact ⟨_, rfl⟩

/-- A statement with one entry for each column. -/
def plainStatement : List (Value × Value) :=
  [(.text "alg", .integer (smallInt (-7))), (.text "sig", .bytes [1]),
    (.text "x5c", .array [.bytes [2]])]

theorem columns_agree_iff_plain :
    ∃ row, webauthnAttestation Platform.bare Definite.codec
        (Definite.encode (.map (packedObject plainStatement))) = .ok row ∧
      ColumnsAgree Platform.bare plainStatement row := by
  obtain ⟨hparse, row, hrow⟩ := @packedObject_accepted plainStatement (by decide)
  obtain ⟨-, -, hagree⟩ := columns_agree_iff hparse rfl hrow
  refine ⟨row, hrow, hagree.2 ?_⟩
  intro key hkey
  rw [← typedAt_eq_iff]
  revert key
  decide

/-- A statement with two signatures. -/
def twoSignatures : List (Value × Value) :=
  [(.text "sig", .bytes [1]), (.text "sig", .bytes [2])]

/-- The column has the first signature, the JSON the second. -/
theorem columns_disagree :
    ∃ row, webauthnAttestation Platform.bare Definite.codec
        (Definite.encode (.map (packedObject twoSignatures))) = .ok row ∧
      row.sig = some [1] ∧
      shownValue Platform.bare "sig" twoSignatures = some (.bytes [2]) ∧
      ¬ ColumnsAgree Platform.bare twoSignatures row := by
  obtain ⟨hparse, row, hrow⟩ := @packedObject_accepted twoSignatures (by decide)
  obtain ⟨-, hsig, -, -⟩ := attestation_columns hparse rfl hrow
  refine ⟨row, hrow, hsig, rfl, fun hagree => ?_⟩
  have hcolumn := hagree.sig
  rw [hsig] at hcolumn
  exact absurd hcolumn (by decide)

/-- A key that is no text can be rendered as one. -/
example : rendersAs Platform.bare "sig" (.bytes [0xb2, 0x28], .null) = true := by decide

end VgiCbor.Webauthn
