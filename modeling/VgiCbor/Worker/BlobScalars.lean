import VgiCbor.Core.MsgpackJson
import VgiCbor.Core.Tags
import VgiCbor.Core.Transcode
import VgiCbor.Security.CwtClaims
import VgiCbor.Security.Webauthn
import VgiCbor.Worker.ArrowIo

/-!
# The functions of one BLOB

Each of these functions decodes the rows of a batch and builds one result column, with one
builder for each field of the result.  As long as the results of all rows stay within the
offsets of the result column, what a function computes for a batch is what it computes for its
rows (`build_rows`): a `NULL` gives `NULL`, a malformed blob gives `NULL`, and no row depends on
another.
-/

namespace VgiCbor.Scalars

open ArrowIo Msgpack

section Builders

variable (rt : Runtime) (codec : CborCodec) (mp : MpCodec)

/-- `Result::ok` of a decoder, on the rows that are not null.  The error of a decoder is
dropped. -/
def decodeRows {ε α : Type} (decode : Bytes → Except ε α) (rows : List (Option Bytes)) :
    List (Option α) :=
  rows.map fun b => b.bind fun bytes => (decode bytes).toOption

/-- A row whose decoder may panic. -/
def decodeRow {α : Type} (decode : Bytes → Except Fault (Option α)) :
    Option Bytes → Except Fault (Option α)
  | none => .ok none
  | some bytes => decode bytes

/-- The same loop, which a row that panics ends.  No column is built then. -/
def decodeRowsIn {α : Type} (decode : Bytes → Except Fault (Option α))
    (rows : List (Option Bytes)) : Except Fault (List (Option α)) :=
  rows.mapM (decodeRow decode)

def buildToJson (rows : List (Option Bytes)) : Except Fault Arr :=
  stringArray (decodeRows (Json.toJsonString rt.toPlatform codec) rows)

def buildDiagnostic (rows : List (Option Bytes)) : Except Fault Arr :=
  stringArray (decodeRows (Diagnostic.diagnostic rt.fp codec) rows)

def buildIsValid (rows : List (Option Bytes)) : Except Fault Arr :=
  boolOptArray (rows.map fun b => b.map (isValid codec))

def wellFormedFields : List (Field DataType) :=
  [nullable "ok" .boolean, nullable "error" .utf8, nullable "kind" .utf8]

def buildWellFormed (rows : List (Option Bytes)) : Except Fault Arr := do
  let results := rows.map fun b => b.map (wellFormed codec)
  let columns ← columnsOf
    [boolOptArray (results.map fun wf => wf.map fun wf => wf.ok),
      stringArray (results.map fun wf => wf.bind fun wf => wf.error),
      stringArray (results.map fun wf => wf.bind fun wf => wf.kind)]
  newStruct rt wellFormedFields columns (some (results.map fun wf => wf.isSome))

def tagItemFields : List (Field DataType) :=
  [⟨"tag", .int .uint64, false⟩, ⟨"path", .utf8, false⟩, nullable "value" .utf8]

def buildTags (rows : List (Option Bytes)) : Except Fault Arr := do
  let b := ListBuilder.ofRows (decodeRows (Tags.tags rt.toPlatform codec) rows)
  let columns ← columnsOf
    [u64OptArray (b.flat.map fun h => some h.tag), stringArray (b.flat.map fun h => some h.path),
      stringArray (b.flat.map fun h => some h.valueJson)]
  let item ← newStruct rt tagItemFields columns none
  newList rt (nullable "item" (.struct tagItemFields)) b item

/-- `msgpack::to_json_string` -/
def mpToJsonString (bytes : Bytes) : Except String String :=
  (Msgpack.parse mp bytes).map fun item => rt.jsonText (mpToJson rt.toPlatform item)

def buildMpToJson (rows : List (Option Bytes)) : Except Fault Arr :=
  stringArray (decodeRows (mpToJsonString rt mp) rows)

def buildMpToCbor (rows : List (Option Bytes)) : Except Fault Arr :=
  binaryArray (decodeRows (Msgpack.toCbor rt.fp codec mp) rows)

def coseDecodeFields : List (Field DataType) :=
  [nullable "tag" (.int .uint64), nullable "msg_type" .utf8,
    nullable "protected" (.struct headerFields), nullable "unprotected" (.struct headerFields),
    nullable "payload" .binary, nullable "signature" .binary, nullable "recipients" .utf8]

def buildCoseDecode (rows : List (Option Bytes)) : Except Fault Arr := do
  let decoded := decodeRows (Cose.coseDecode rt.toPlatform codec) rows
  let protectedCol ← headerArrayOpt rt (decoded.map fun d => d.map fun d => d.protectedHeaders)
  let unprotectedCol ← headerArrayOpt rt (decoded.map fun d => d.map fun d => d.unprotectedHeaders)
  let columns ← columnsOf
    [u64OptArray (decoded.map fun d => d.bind fun d => d.tag),
      stringArray (decoded.map fun d => d.map fun d => d.msgType), .ok protectedCol,
      .ok unprotectedCol, binaryArray (decoded.map fun d => d.bind fun d => d.payload),
      binaryArray (decoded.map fun d => d.bind fun d => d.signature),
      stringArray (decoded.map fun d => d.bind fun d => d.recipients)]
  newStruct rt coseDecodeFields columns (some (decoded.map fun d => d.isSome))

def buildCosePayload (rows : List (Option Bytes)) : Except Fault Arr :=
  binaryArray ((decodeRows (Cose.cosePayload rt.toPlatform codec) rows).map Option.join)

def buildCoseHeaders (rows : List (Option Bytes)) : Except Fault Arr :=
  headerArrayOpt rt ((decodeRows (Cose.coseDecode rt.toPlatform codec) rows).map fun d =>
    d.map Cose.mergedHeaders)

def buildCoseX5t (rows : List (Option Bytes)) : Except Fault Arr :=
  stringArray ((decodeRows (Cose.coseX5t rt.toPlatform codec) rows).map Option.join)

def buildCoseX5chain (rows : List (Option Bytes)) : Except Fault Arr :=
  listBinaryArray rt ((decodeRows (Cose.coseX5chain rt.toPlatform codec) rows).map Option.join)

def buildCoseKey (rows : List (Option Bytes)) : Except Fault Arr :=
  coseKeyArray rt (decodeRows (CoseKey.coseKey codec) rows)

def cwtFields : List (Field DataType) :=
  let ts : DataType := .timestamp .microsecond (some "UTC")
  [nullable "iss" .utf8, nullable "sub" .utf8, nullable "aud" .utf8, nullable "exp" ts,
    nullable "nbf" ts, nullable "iat" ts, nullable "cti" .binary, nullable "extra" .utf8]

/-- The claims of a row; a chain of calls that the stack has no room for ends the process. -/
def cwtRow (calls : Nat) (bytes : Bytes) : Except Fault (Option Cwt.CwtClaims) :=
  match Cwt.cwtClaims rt.toPlatform codec calls bytes with
  | some result => .ok result.toOption
  | none => .error (.panic "stack overflow")

def cwtColumns (claims : List (Option Cwt.CwtClaims)) : Except Fault Arr := do
  let columns ← columnsOf
    [stringArray (claims.map fun c => c.bind fun c => c.iss),
      stringArray (claims.map fun c => c.bind fun c => c.sub),
      stringArray (claims.map fun c => c.bind fun c => c.aud),
      tsArray (claims.map fun c => c.bind fun c => c.exp),
      tsArray (claims.map fun c => c.bind fun c => c.nbf),
      tsArray (claims.map fun c => c.bind fun c => c.iat),
      binaryArray (claims.map fun c => c.bind fun c => c.cti),
      stringArray (claims.map fun c => c.bind fun c => c.extra)]
  newStruct rt cwtFields columns (some (claims.map fun c => c.isSome))

def buildCwt (calls : Nat) (rows : List (Option Bytes)) : Except Fault Arr := do
  let claims ← decodeRowsIn (cwtRow rt codec calls) rows
  cwtColumns rt claims

def authdataFields : List (Field DataType) :=
  [nullable "rp_id_hash" .binary, nullable "up" .boolean, nullable "uv" .boolean,
    nullable "be" .boolean, nullable "bs" .boolean, nullable "at" .boolean,
    nullable "ed" .boolean, nullable "sign_count" (.int .uint32), nullable "aaguid" .utf8,
    nullable "cred_id" .binary, nullable "cred_public_key" (.struct coseKeyFields),
    nullable "extensions" .utf8]

/-- The authenticator data of a row; a panic ends the loop. -/
def authdataRow (bytes : Bytes) : Except Fault (Option Webauthn.AuthData) :=
  match Webauthn.webauthnAuthdata rt.toPlatform codec bytes with
  | .ok data => .ok (some data)
  | .error (.decode _) => .ok none
  | .error (.panic message) => .error (.panic message)

/-- The column of the authenticator data of all rows. -/
def authdataColumns (parsed : List (Option Webauthn.AuthData)) : Except Fault Arr := do
  let credKey ← coseKeyArray rt (parsed.map fun a => a.bind fun a => a.credPublicKey)
  let columns ← columnsOf
    [binaryArray (parsed.map fun a => a.map fun a => a.rpIdHash),
      boolOptArray (parsed.map fun a => a.map fun a => a.up),
      boolOptArray (parsed.map fun a => a.map fun a => a.uv),
      boolOptArray (parsed.map fun a => a.map fun a => a.be),
      boolOptArray (parsed.map fun a => a.map fun a => a.bs),
      boolOptArray (parsed.map fun a => a.map fun a => a.at_),
      boolOptArray (parsed.map fun a => a.map fun a => a.ed),
      u32OptArray (parsed.map fun a => a.map fun a => a.signCount),
      stringArray (parsed.map fun a => a.bind fun a => a.aaguid),
      binaryArray (parsed.map fun a => a.bind fun a => a.credId), .ok credKey,
      stringArray (parsed.map fun a => a.bind fun a => a.extensions)]
  newStruct rt authdataFields columns (some (parsed.map fun a => a.isSome))

def buildAuthdata (rows : List (Option Bytes)) : Except Fault Arr := do
  let parsed ← decodeRowsIn (authdataRow rt codec) rows
  authdataColumns rt parsed

end Builders

/-! ## The functions -/

/-- The functions whose argument is one BLOB. -/
inductive BlobScalar where
  | toJson
  | diagnostic
  | isValid
  | wellFormed
  | tags
  | msgpackToJson
  | msgpackDecode
  | msgpackToCbor
  | coseDecode
  | cosePayload
  | coseHeaders
  | coseX5t
  | coseX5chain
  | coseKey
  | cwtClaims
  | webauthnAuthdata
  deriving DecidableEq

/-- What the functions rest on: the platform, the codecs, and how many calls of a recursion the
stack has room for. -/
structure Base where
  rt : Runtime
  codec : CborCodec
  mp : MpCodec
  calls : Nat

namespace BlobScalar

def ret : BlobScalar → DataType
  | .toJson | .diagnostic | .msgpackToJson | .msgpackDecode | .coseX5t => .utf8
  | .isValid => .boolean
  | .wellFormed => .struct wellFormedFields
  | .tags => .list (nullable "item" (.struct tagItemFields))
  | .msgpackToCbor | .cosePayload => .binary
  | .coseDecode => .struct coseDecodeFields
  | .coseHeaders => .struct headerFields
  | .coseX5chain => .list (nullable "item" .binary)
  | .coseKey => .struct coseKeyFields
  | .cwtClaims => .struct cwtFields
  | .webauthnAuthdata => .struct authdataFields

variable (base : Base)

/-- The column builder of a function. -/
def build : BlobScalar → List (Option Bytes) → Except Fault Arr
  | .toJson => buildToJson base.rt base.codec
  | .diagnostic => buildDiagnostic base.rt base.codec
  | .isValid => buildIsValid base.codec
  | .wellFormed => buildWellFormed base.rt base.codec
  | .tags => buildTags base.rt base.codec
  | .msgpackToJson | .msgpackDecode => buildMpToJson base.rt base.mp
  | .msgpackToCbor => buildMpToCbor base.rt base.codec base.mp
  | .coseDecode => buildCoseDecode base.rt base.codec
  | .cosePayload => buildCosePayload base.rt base.codec
  | .coseHeaders => buildCoseHeaders base.rt base.codec
  | .coseX5t => buildCoseX5t base.rt base.codec
  | .coseX5chain => buildCoseX5chain base.rt base.codec
  | .coseKey => buildCoseKey base.rt base.codec
  | .cwtClaims => buildCwt base.rt base.codec base.calls
  | .webauthnAuthdata => buildAuthdata base.rt base.codec

end BlobScalar

/-! ## What a function computes for a row -/

def wellFormedCell (wf : WellFormed) : Cell :=
  .struct [.bool wf.ok, optCell .text wf.error, optCell .text wf.kind]

def tagCell (h : Tags.TagHit) : Cell := .struct [u64Cell h.tag, .text h.path, .text h.valueJson]

def coseCell (d : Cose.CoseDecoded) : Cell :=
  .struct [optCell u64Cell d.tag, .text d.msgType, headerCell d.protectedHeaders,
    headerCell d.unprotectedHeaders, optCell .bytes d.payload, optCell .bytes d.signature,
    optCell .text d.recipients]

def claimsCell (c : Cwt.CwtClaims) : Cell :=
  .struct [optCell .text c.iss, optCell .text c.sub, optCell .text c.aud, optCell tsCell c.exp,
    optCell tsCell c.nbf, optCell tsCell c.iat, optCell .bytes c.cti, optCell .text c.extra]

def authdataCell (a : Webauthn.AuthData) : Cell :=
  .struct [.bytes a.rpIdHash, .bool a.up, .bool a.uv, .bool a.be, .bool a.bs, .bool a.at_,
    .bool a.ed, u32Cell a.signCount, optCell .text a.aaguid, optCell .bytes a.credId,
    optCell keyCell a.credPublicKey, optCell .text a.extensions]

/-- The cell for the result of a decoder; no cell for an error. -/
def okCell {ε α : Type} (cell : α → Cell) (x : Except ε α) : Cell := optCell cell x.toOption

namespace BlobScalar

variable (base : Base)

/-- What a function computes for one blob.  Only the two decoders that may panic have a fault. -/
def cell : BlobScalar → Bytes → Except Fault Cell
  | .toJson, b => .ok (okCell .text (Json.toJsonString base.rt.toPlatform base.codec b))
  | .diagnostic, b => .ok (okCell .text (Diagnostic.diagnostic base.rt.fp base.codec b))
  | .isValid, b => .ok (.bool (VgiCbor.isValid base.codec b))
  | .wellFormed, b => .ok (wellFormedCell (VgiCbor.wellFormed base.codec b))
  | .tags, b =>
      .ok (okCell (fun hits => .list (hits.map tagCell))
        (Tags.tags base.rt.toPlatform base.codec b))
  | .msgpackToJson, b | .msgpackDecode, b => .ok (okCell .text (mpToJsonString base.rt base.mp b))
  | .msgpackToCbor, b => .ok (okCell .bytes (Msgpack.toCbor base.rt.fp base.codec base.mp b))
  | .coseDecode, b => .ok (okCell coseCell (Cose.coseDecode base.rt.toPlatform base.codec b))
  | .cosePayload, b =>
      .ok (okCell (optCell .bytes) (Cose.cosePayload base.rt.toPlatform base.codec b))
  | .coseHeaders, b =>
      .ok (okCell (fun d => headerCell (Cose.mergedHeaders d))
        (Cose.coseDecode base.rt.toPlatform base.codec b))
  | .coseX5t, b => .ok (okCell (optCell .text) (Cose.coseX5t base.rt.toPlatform base.codec b))
  | .coseX5chain, b =>
      .ok (okCell (optCell listCell) (Cose.coseX5chain base.rt.toPlatform base.codec b))
  | .coseKey, b => .ok (okCell keyCell (CoseKey.coseKey base.codec b))
  | .cwtClaims, b => (cwtRow base.rt base.codec base.calls b).map (optCell claimsCell)
  | .webauthnAuthdata, b => (authdataRow base.rt base.codec b).map (optCell authdataCell)

/-- What a function computes for a row: nothing for a null. -/
def row (f : BlobScalar) : Option Bytes → Except Fault Cell
  | none => .ok .null
  | some b => f.cell base b

/-- The results of the rows stay within the offsets of the result column. -/
def Fits (f : BlobScalar) (rows : List (Option Bytes)) : Prop :=
  ∀ cells, rows.mapM (f.row base) = .ok cells → cellsFit f.ret cells = true

end BlobScalar

/-! ## Batches are computed row by row -/

section Batches

variable {rt : Runtime} {codec : CborCodec} {mp : MpCodec} {ε α : Type}

theorem decodeRows_cells (decode : Bytes → Except ε α) (cell : α → Cell)
    (rows : List (Option Bytes)) :
    (decodeRows decode rows).map (optCell cell) =
      rows.map (optCell fun b => okCell cell (decode b)) := by
  rw [decodeRows, List.map_map]
  apply List.map_congr_left
  intro b _
  cases b <;> rfl

/-- A function without faults, whose column yields the cells of the rows, computes them row by
row. -/
theorem build_of_yields {base : Base} {f : BlobScalar} {rows : List (Option Bytes)}
    (hfits : f.Fits base rows) {cell : Bytes → Cell} (hcell : ∀ b, f.cell base b = .ok (cell b))
    {column : Except Fault Arr} (hyields : Yields column f.ret (rows.map (optCell cell))) :
    column.map Arr.cells = rows.mapM (f.row base) := by
  have hrow : f.row base = fun b => pure (optCell cell b) := by
    funext b
    cases b with
    | none => rfl
    | some b => exact hcell b
  have hrows : rows.mapM (f.row base) = .ok (rows.map (optCell cell)) := by
    rw [hrow, List.mapM_pure]
    rfl
  rw [hrows]
  exact hyields (hfits _ hrows)

/-- A function whose rows may panic: the first panic ends the loop, and its column otherwise
holds the cells of the rows. -/
theorem decodeRowsIn_cells {base : Base} {f : BlobScalar} {rows : List (Option Bytes)}
    (hfits : f.Fits base rows) {decode : Bytes → Except Fault (Option α)} {cell : α → Cell}
    (hcell : ∀ b, f.cell base b = (decode b).map (optCell cell))
    {columns : List (Option α) → Except Fault Arr}
    (hcolumns : ∀ parsed, Yields (columns parsed) f.ret (parsed.map (optCell cell))) :
    ((decodeRowsIn decode rows).bind columns).map Arr.cells = rows.mapM (f.row base) := by
  have hrow : f.row base = fun b => (decodeRow decode b).map (optCell cell) := by
    funext b
    cases b with
    | none => rfl
    | some b => exact hcell b
  rw [BlobScalar.Fits, hrow] at hfits
  rw [hrow]
  exact loop_yields hcolumns hfits

theorem buildWellFormed_yields (rows : List (Option Bytes)) :
    Yields (buildWellFormed rt codec rows) (.struct wellFormedFields)
      (rows.map (optCell fun b => wellFormedCell (wellFormed codec b))) := by
  have hcells : rows.map (optCell fun b => wellFormedCell (wellFormed codec b)) =
      (rows.map fun b => b.map (wellFormed codec)).map (optCell wellFormedCell) := by
    rw [List.map_map]
    exact List.map_congr_left fun b _ => (optCell_map _ _ b).symm
  rw [hcells]
  apply @newStruct_opt _ _ _ _ [fun wf => optCell .bool (wf.map fun wf => wf.ok),
    fun wf => optCell .text (wf.bind fun wf => wf.error),
    fun wf => optCell .text (wf.bind fun wf => wf.kind)]
  · exact .cons (optArray_yields rfl _ _ _) <| .cons (optArray_yields rfl _ _ _) <|
      .cons (optArray_yields rfl _ _ _) .nil
  · simp [wellFormedFields, nullable]
  · rfl
  · simp
  · simp [optCell]
  · exact fun _ => rfl

theorem buildTags_yields (rows : List (Option Bytes)) :
    Yields (buildTags rt codec rows) (.list (nullable "item" (.struct tagItemFields)))
      ((decodeRows (Tags.tags rt.toPlatform codec) rows).map
        (optCell fun hits => .list (hits.map tagCell))) := by
  generalize hhits : decodeRows (Tags.tags rt.toPlatform codec) rows = hits
  have hbuild : buildTags rt codec rows =
      ((columnsOf
        [u64OptArray ((ListBuilder.ofRows hits).flat.map fun h => some h.tag),
          stringArray ((ListBuilder.ofRows hits).flat.map fun h => some h.path),
          stringArray ((ListBuilder.ofRows hits).flat.map fun h => some h.valueJson)]).bind
        fun columns => newStruct rt tagItemFields columns none).bind
          (newList rt (nullable "item" (.struct tagItemFields)) (.ofRows hits)) := by
    rw [buildTags, hhits]
    cases columnsOf _ <;> rfl
  rw [hbuild]
  apply newList_yields rfl
  apply @newStruct_yields _ _ _ _ [fun h => u64Cell h.tag, fun h => .text h.path,
    fun h => .text h.valueJson] _ _ none rfl
  · exact .cons (optArray_yields rfl _ _ _) <| .cons (optArray_yields rfl _ _ _) <|
      .cons (optArray_yields rfl _ _ _) .nil
  · simp [Admitted, tagItemFields, nullable, u64Cell, Cell.isNull]
  · simp
  · exact fun _ _ => .inl ⟨rfl, rfl⟩

theorem buildCoseDecode_yields (rows : List (Option Bytes)) :
    Yields (buildCoseDecode rt codec rows) (.struct coseDecodeFields)
      ((decodeRows (Cose.coseDecode rt.toPlatform codec) rows).map (optCell coseCell)) := by
  rw [buildCoseDecode]
  generalize decodeRows (Cose.coseDecode rt.toPlatform codec) rows = decoded
  intro hfit
  let cells : List (Option Cose.CoseDecoded → Cell) :=
    [fun d => optCell u64Cell (d.bind fun d => d.tag),
      fun d => optCell .text (d.map fun d => d.msgType),
      fun d => optCell headerCell (d.map fun d => d.protectedHeaders),
      fun d => optCell headerCell (d.map fun d => d.unprotectedHeaders),
      fun d => optCell .bytes (d.bind fun d => d.payload),
      fun d => optCell .bytes (d.bind fun d => d.signature),
      fun d => optCell .text (d.bind fun d => d.recipients)]
  have hfields : fieldsFit coseDecodeFields
      (decoded.map fun d => structFields (optCell coseCell d)) = true := by
    rwa [cellsFit, List.map_map] at hfit
  have hforall := @fieldsFit_forall _ _ _ _ cells rfl (fun d _ => by
    cases d with
    | none => exact .inr ⟨rfl, by simp [cells, optCell]⟩
    | some d => exact .inl rfl) hfields
  simp only [cells, coseDecodeFields, List.forall₂_cons] at hforall
  obtain ⟨prot, hprot, hprotCells⟩ :=
    (@headerArrayOpt_yields rt _ (Option.map Cose.CoseDecoded.protectedHeaders)
      decoded).exists_ok hforall.2.2.1
  obtain ⟨unprot, hunprot, hunprotCells⟩ :=
    (@headerArrayOpt_yields rt _ (Option.map Cose.CoseDecoded.unprotectedHeaders)
      decoded).exists_ok hforall.2.2.2.1
  rw [hprot, hunprot]
  refine @newStruct_opt _ _ _ _ cells _ _ ?_ (by simp [coseDecodeFields, nullable]) rfl
    (by simp [cells]) (by simp [cells, optCell]) (fun _ => rfl) hfit
  exact .cons (optArray_yields rfl _ _ _) <| .cons (optArray_yields rfl _ _ _) <|
    .cons (.of_eq hprotCells) <| .cons (.of_eq hunprotCells) <|
    .cons (optArray_yields rfl _ _ _) <| .cons (optArray_yields rfl _ _ _) <|
    .cons (optArray_yields rfl _ _ _) .nil

theorem cwtColumns_yields (claims : List (Option Cwt.CwtClaims)) :
    Yields (cwtColumns rt claims) (.struct cwtFields) (claims.map (optCell claimsCell)) := by
  apply @newStruct_opt _ _ _ _ [fun c => optCell .text (c.bind fun c => c.iss),
    fun c => optCell .text (c.bind fun c => c.sub), fun c => optCell .text (c.bind fun c => c.aud),
    fun c => optCell tsCell (c.bind fun c => c.exp), fun c => optCell tsCell (c.bind fun c => c.nbf),
    fun c => optCell tsCell (c.bind fun c => c.iat), fun c => optCell .bytes (c.bind fun c => c.cti),
    fun c => optCell .text (c.bind fun c => c.extra)]
  · exact .cons (optArray_yields rfl _ _ _) <| .cons (optArray_yields rfl _ _ _) <|
      .cons (optArray_yields rfl _ _ _) <| .cons (optArray_yields rfl _ _ _) <|
      .cons (optArray_yields rfl _ _ _) <| .cons (optArray_yields rfl _ _ _) <|
      .cons (optArray_yields rfl _ _ _) <| .cons (optArray_yields rfl _ _ _) .nil
  · simp [cwtFields, nullable]
  · rfl
  · simp
  · simp [optCell]
  · exact fun _ => rfl

theorem authdataColumns_yields (parsed : List (Option Webauthn.AuthData)) :
    Yields (authdataColumns rt parsed) (.struct authdataFields)
      (parsed.map (optCell authdataCell)) := by
  intro hfit
  let cells : List (Option Webauthn.AuthData → Cell) :=
    [fun a => optCell .bytes (a.map fun a => a.rpIdHash),
      fun a => optCell .bool (a.map fun a => a.up), fun a => optCell .bool (a.map fun a => a.uv),
      fun a => optCell .bool (a.map fun a => a.be), fun a => optCell .bool (a.map fun a => a.bs),
      fun a => optCell .bool (a.map fun a => a.at_), fun a => optCell .bool (a.map fun a => a.ed),
      fun a => optCell u32Cell (a.map fun a => a.signCount),
      fun a => optCell .text (a.bind fun a => a.aaguid),
      fun a => optCell .bytes (a.bind fun a => a.credId),
      fun a => optCell keyCell (a.bind fun a => a.credPublicKey),
      fun a => optCell .text (a.bind fun a => a.extensions)]
  have hfields : fieldsFit authdataFields
      (parsed.map fun a => structFields (optCell authdataCell a)) = true := by
    rwa [cellsFit, List.map_map] at hfit
  have hforall := @fieldsFit_forall _ _ _ _ cells rfl (fun a _ => by
    cases a with
    | none => exact .inr ⟨rfl, by simp [cells, optCell]⟩
    | some a => exact .inl rfl) hfields
  simp only [cells, authdataFields, List.forall₂_cons] at hforall
  obtain ⟨credKey, hcredKey, hkeyCells⟩ :=
    (@coseKeyArray_yields rt _ (fun a : Option Webauthn.AuthData =>
      a.bind fun a => a.credPublicKey) parsed).exists_ok hforall.2.2.2.2.2.2.2.2.2.2.1
  rw [authdataColumns, hcredKey]
  refine @newStruct_opt _ _ _ _ cells _ _ ?_ (by simp [authdataFields, nullable]) rfl
    (by simp [cells]) (by simp [cells, optCell]) (fun _ => rfl) hfit
  exact .cons (optArray_yields rfl _ _ _) <| .cons (optArray_yields rfl _ _ _) <|
    .cons (optArray_yields rfl _ _ _) <| .cons (optArray_yields rfl _ _ _) <|
    .cons (optArray_yields rfl _ _ _) <| .cons (optArray_yields rfl _ _ _) <|
    .cons (optArray_yields rfl _ _ _) <| .cons (optArray_yields rfl _ _ _) <|
    .cons (optArray_yields rfl _ _ _) <| .cons (optArray_yields rfl _ _ _) <|
    .cons (.of_eq hkeyCells) <| .cons (optArray_yields rfl _ _ _) .nil

end Batches

namespace BlobScalar

/-- The builder of a function computes what the function computes for each row.  The builders
work column by column, the functions row by row. -/
theorem build_rows (base : Base) (f : BlobScalar) {rows : List (Option Bytes)}
    (hfits : f.Fits base rows) :
    (f.build base rows).map Arr.cells = rows.mapM (f.row base) := by
  have plain {ε α : Type} (decode : Bytes → Except ε α) (cell : α → Cell)
      (hcell : ∀ b, f.cell base b = .ok (okCell cell (decode b))) {column : Except Fault Arr}
      (hyields : Yields column f.ret ((decodeRows decode rows).map (optCell cell))) :
      column.map Arr.cells = rows.mapM (f.row base) := by
    rw [decodeRows_cells] at hyields
    exact build_of_yields hfits hcell hyields
  have joined {ε α : Type} (decode : Bytes → Except ε (Option α)) (cell : α → Cell)
      (hcell : ∀ b, f.cell base b = .ok (okCell (optCell cell) (decode b)))
      {column : Except Fault Arr} (hyields : Yields column f.ret
        ((decodeRows decode rows).map fun d => optCell cell d.join)) :
      column.map Arr.cells = rows.mapM (f.row base) := by
    refine plain decode (optCell cell) hcell ?_
    rwa [← List.map_congr_left fun d _ => optCell_join cell d]
  cases f with
  | toJson | diagnostic | msgpackToJson | msgpackDecode | msgpackToCbor =>
      exact plain _ _ (fun _ => rfl) (optArray_yields_self rfl _ _)
  | isValid =>
      refine build_of_yields hfits (fun _ => rfl) ?_
      rw [← List.map_congr_left fun b _ => optCell_map _ _ b]
      exact optArray_yields rfl _ _ rows
  | wellFormed => exact build_of_yields hfits (fun _ => rfl) (buildWellFormed_yields rows)
  | tags => exact plain _ _ (fun _ => rfl) (buildTags_yields rows)
  | coseDecode => exact plain _ _ (fun _ => rfl) (buildCoseDecode_yields rows)
  | cosePayload => exact joined _ _ (fun _ => rfl) (optArray_yields rfl _ Option.join _)
  | coseX5t => exact joined _ _ (fun _ => rfl) (optArray_yields rfl _ Option.join _)
  | coseHeaders =>
      refine plain _ _ (fun _ => rfl) ?_
      rw [← List.map_congr_left fun d _ => optCell_map _ _ d]
      exact headerArrayOpt_yields _ _
  | coseX5chain => exact joined _ _ (fun _ => rfl) (listBinaryArray_yields Option.join _)
  | coseKey =>
      have hyields := @coseKeyArray_yields base.rt _ id
        (decodeRows (CoseKey.coseKey base.codec) rows)
      rw [List.map_id] at hyields
      exact plain _ _ (fun _ => rfl) hyields
  | cwtClaims => exact decodeRowsIn_cells hfits (fun _ => rfl) cwtColumns_yields
  | webauthnAuthdata => exact decodeRowsIn_cells hfits (fun _ => rfl) authdataColumns_yields

end BlobScalar

end VgiCbor.Scalars
