import VgiCbor.Core.ConcreteCodecs
import VgiCbor.Worker.BlobScalars
import VgiCbor.Worker.CopyDestination
import VgiCbor.Worker.ValueIn

/-!
# The scalar functions

A query calls a scalar function on one batch after the other.  The constant arguments are
resolved first, then the function runs over the rows of the batch.  However the engine cuts a
column into batches, as long as no result outgrows the offsets of its column, the results are
those of the rows (`scan_rows`), and over BLOB columns no row, however malformed, makes a scan
fail (`scan_blobs`).
-/

namespace VgiCbor.Scalars

open ArrayLibrary ArrowIo MachineInt Msgpack

/-! ## Constant arguments -/

def normalized (mode : String) : String := (Cloud.trim mode).toLower

def DECODE_MODES : List String := ["auto", "struct", "map", "json"]

/-- Check the mode of `decode`, which has no other effect: every mode decodes alike. -/
def validateMode (mode : String) : Except Fault Unit :=
  let m := normalized mode
  if DECODE_MODES.contains m then .ok ()
  else
    let expected := " | ".intercalate DECODE_MODES
    .error (.valueError s!"decode: unknown mode '{m}' (expected {expected})")

inductive EncodeMode where
  | shortest
  | core
  | ctap2
  deriving DecidableEq

def parseEncodeMode (mode : String) : Except Fault EncodeMode :=
  let m := normalized mode
  if m = "shortest" then .ok .shortest
  else if m = "canonical_core" ∨ m = "core" then .ok .core
  else if m = "canonical_ctap2" ∨ m = "ctap2" then .ok .ctap2
  else
    .error (.valueError
      s!"encode: unknown mode '{m}' (expected shortest | canonical_core | canonical_ctap2)")

/-- `Canon::parse`, with its error as the functions report it. -/
def parseCanon (mode : String) : Except Fault Canon :=
  (CopyDestination.parseCanon mode).mapError .valueError

/-- A call of a scalar function with its constant arguments, as the query gives them. -/
inductive Scalar where
  | blob (f : BlobScalar)
  | decode (mode : Option String)
  | fromJson
  | untag (tag : Option I64)
  | encode (mode : Option String)
  | canonical (mode : Option String)
  | msgpackEncode

/-- A function with its arguments resolved.  From here on only the rows of a batch matter. -/
inductive Resolved where
  | blob (f : BlobScalar)
  | decode
  | fromJson
  | untag (tag : UInt64)
  | encode (mode : EncodeMode)
  | canonical (mode : Canon)
  | msgpackEncode

/-- `arguments.const_str(1).map(parse).transpose()?.unwrap_or(default)` -/
def modeOr {α : Type} (parse : String → Except Fault α) (default : α) :
    Option String → Except Fault α
  | some mode => parse mode
  | none => .ok default

/-- `n as u64` -/
def asU64 (n : I64) : UInt64 := UInt64.ofNat (n.val % 0x10000000000000000).toNat

namespace Scalar

/-- The type of the result, once the arguments are checked.  This runs once for a query,
before any batch. -/
def onBind : Scalar → Except Fault DataType
  | .blob f => .ok f.ret
  | .decode mode => do
      if let some mode := mode then validateMode mode
      return .utf8
  | .fromJson => .ok .binary
  | .untag _ => .ok .utf8
  | .encode mode => do
      if let some mode := mode then let _ ← parseEncodeMode mode
      return .binary
  | .canonical mode => do
      if let some mode := mode then let _ ← parseCanon mode
      return .binary
  | .msgpackEncode => .ok .binary

/-- The arguments as each batch resolves them.  The tag of `untag` is looked at here for the
first time. -/
def resolve : Scalar → Except Fault Resolved
  | .blob f => .ok (.blob f)
  | .decode _ => .ok .decode
  | .fromJson => .ok .fromJson
  | .untag tag =>
      match tag with
      | some n => .ok (.untag (asU64 n))
      | none => .error (.valueError "untag: a constant tag number is required")
  | .encode mode => (modeOr parseEncodeMode .shortest mode).map .encode
  | .canonical mode => (modeOr parseCanon .core mode).map .canonical
  | .msgpackEncode => .ok .msgpackEncode

end Scalar

/-! ## Batches -/

/-- The cells that an array of a type can hold; only of bytes and texts is something asked. -/
def holds : DataType → Cell → Bool
  | _, .null => true
  | .binary, .bytes _ | .largeBinary, .bytes _ | .utf8, .text _ | .largeUtf8, .text _ => true
  | .binary, _ | .largeBinary, _ | .utf8, _ | .largeUtf8, _ => false
  | _, _ => true

/-- An argument column of a batch.  Its cells are such as an Arrow array of the type can hold. -/
structure Column where
  dataType : DataType
  cells : List Cell
  typed : ∀ c ∈ cells, holds dataType c = true

section Process

variable (base : Base)

/-- `out.push(blob_bytes(col, i)?.and_then(f))`: a null, and a blob that `f` does not take,
give no value. -/
def blobLoop {α : Type} (col : Column) (f : Bytes → Option α) : Except Fault (List (Option α)) :=
  col.cells.mapM fun c => (blobBytes base.rt col.dataType c).map fun b => b.bind f

/-- Read and encode the cells that are not null.  A cell that cannot be read fails the batch;
one that cannot be encoded gives a null. -/
def valueLoop (col : Column) (f : Value → Option Bytes) : Except Fault (List (Option Bytes)) :=
  col.cells.mapM fun c =>
    if isNull col.dataType c then .ok none
    else (ValueIn.valueAt base.rt col.dataType c).map f

/-- `RecordBatch::try_new` over the result column. -/
def finish (field : Field DataType) (out : Arr) : Except Fault RecordBatch :=
  match base.rt.arrays.tryNewBatch [field] [out] with
  | .ok batch => .ok batch
  | .error e => .error (.runtimeError e)

/-- What the mode of `encode` makes of a value. -/
def EncodeMode.apply (codec : CborCodec) : EncodeMode → Value → Value
  | .shortest, value => value
  | .core, value => canonicalize codec .core value
  | .ctap2, value => canonicalize codec .ctap2 value

/-- Encode CBOR bytes as MessagePack, if they are one well-formed item. -/
def cborToMsgpack (cbor : Bytes) : Option Bytes :=
  (VgiCbor.parse base.codec cbor).toOption.bind fun value =>
    (Msgpack.encodeValue base.mp (cborToMp base.rt.fp value)).toOption

namespace Resolved

/-- What `decode` computes for a blob, and the other functions below. -/
def decodeBlob (b : Bytes) : Option String :=
  (Json.toJsonString base.rt.toPlatform base.codec b).toOption

def fromJsonBlob (b : Bytes) : Option Bytes :=
  (String.fromUTF8? ⟨b.toArray⟩).bind fun s =>
    (Json.fromJsonStr base.rt.toPlatform base.codec s).toOption

def untagBlob (tag : UInt64) (b : Bytes) : Option String :=
  (Tags.untag base.rt.toPlatform base.codec b tag).toOption

def canonicalBlob (mode : Canon) (b : Bytes) : Option Bytes :=
  (VgiCbor.canonical base.codec b mode).toOption

def encodeCell (mode : EncodeMode) (value : Value) : Option Bytes :=
  (VgiCbor.encodeValue base.codec (mode.apply base.codec value)).toOption

def msgpackEncodeCell (value : Value) : Option Bytes :=
  (VgiCbor.encodeValue base.codec value).toOption.bind (cborToMsgpack base)

/-- The loop over the rows of a batch, and the array of its results. -/
def build (col : Column) : Resolved → Except Fault Arr
  | .blob f => do
      let input ← col.cells.mapM (blobBytes base.rt col.dataType)
      f.build base input
  | .decode => (blobLoop base col (decodeBlob base)).bind stringArray
  | .fromJson => (blobLoop base col (fromJsonBlob base)).bind binaryArray
  | .untag tag => (blobLoop base col (untagBlob base tag)).bind stringArray
  | .encode mode => (valueLoop base col (encodeCell base mode)).bind binaryArray
  | .canonical mode => (blobLoop base col (canonicalBlob base mode)).bind binaryArray
  | .msgpackEncode => (valueLoop base col (msgpackEncodeCell base)).bind binaryArray

end Resolved

/-- Run a function over a batch: resolve its arguments, build the array, and put it into a
batch. -/
def Scalar.process (field : Field DataType) (f : Scalar) (col : Column) :
    Except Fault RecordBatch := do
  let resolved ← f.resolve
  let out ← resolved.build base col
  finish base field out

end Process

/-! ## Rows -/

section Rows

variable (base : Base)

/-- One row of a function of blobs. -/
def blobRow {α : Type} (dt : DataType) (cell : α → Cell) (f : Bytes → Option α) (c : Cell) :
    Except Fault Cell :=
  (blobBytes base.rt dt c).map fun b => optCell cell (b.bind f)

/-- One row of a function of values. -/
def valueRow (dt : DataType) (f : Value → Option Bytes) (c : Cell) : Except Fault Cell :=
  if isNull dt c then .ok .null
  else (ValueIn.valueAt base.rt dt c).map fun v => optCell .bytes (f v)

namespace Resolved

/-- What a function computes for one row, without a look at the others. -/
def row (dt : DataType) : Resolved → Cell → Except Fault Cell
  | .blob f, c => (blobBytes base.rt dt c).bind (f.row base)
  | .decode, c => blobRow base dt .text (decodeBlob base) c
  | .fromJson, c => blobRow base dt .bytes (fromJsonBlob base) c
  | .untag tag, c => blobRow base dt .text (untagBlob base tag) c
  | .encode mode, c => valueRow base dt (encodeCell base mode) c
  | .canonical mode, c => blobRow base dt .bytes (canonicalBlob base mode) c
  | .msgpackEncode, c => valueRow base dt (msgpackEncodeCell base) c

def ret : Resolved → DataType
  | .blob f => f.ret
  | .decode | .untag _ => .utf8
  | .fromJson | .encode _ | .canonical _ | .msgpackEncode => .binary

/-- The results of the rows stay within the offsets of the result column.  Where they do not,
the builder panics. -/
def Fits (r : Resolved) (col : Column) : Prop :=
  ∀ cells, col.cells.mapM (r.row base col.dataType) = .ok cells → cellsFit r.ret cells = true

end Resolved

end Rows

/-! ## Columns of blobs -/

/-- The types of a BLOB or VARCHAR argument. -/
def isBlobType : DataType → Bool
  | .binary | .largeBinary | .utf8 | .largeUtf8 => true
  | _ => false

/-- The bytes of a BLOB or VARCHAR cell. -/
def blobOf : Cell → Option Bytes
  | .bytes b => some b
  | .text s => some (utf8 s)
  | _ => none

variable {base : Base} {dt : DataType} {c : Cell}

/-- A column of blobs gives the bytes of each row, and none for a null only. -/
theorem blobBytes_ok (hdt : isBlobType dt = true) (hc : holds dt c = true) :
    blobBytes base.rt dt c = .ok (blobOf c) ∧ (blobOf c = none ↔ c = .null) := by
  cases dt <;> cases hdt <;> cases c <;> first
    | exact ⟨rfl, by simp [blobOf]⟩
    | exact nomatch hc

/-- Of another column only nulls are taken; any other cell is an error. -/
theorem blobBytes_none (hdt : isBlobType dt = false) {b : Option Bytes}
    (h : blobBytes base.rt dt c = .ok b) : b = none := by
  unfold blobBytes at h
  split at h
  · cases h
    rfl
  · cases dt with
    | binary | largeBinary | utf8 | largeUtf8 => cases hdt
    | _ => cases h

/-! ## Batches are computed row by row -/

/-- The array of a loop over blobs. -/
theorem blobLoop_cells {α : Type} {col : Column} {r : Resolved} (hfits : r.Fits base col)
    (hscalar : r.ret.isNested = false) {cell : α → Cell} {f : Bytes → Option α}
    (hrow : ∀ c, r.row base col.dataType c = blobRow base col.dataType cell f c) :
    ((blobLoop base col f).bind (optArray r.ret cell)).map Arr.cells =
      col.cells.mapM (r.row base col.dataType) := by
  have hstep : r.row base col.dataType = fun c =>
      ((blobBytes base.rt col.dataType c).map fun b => b.bind f).map (optCell cell) := by
    funext c
    rw [hrow, blobRow]
    cases blobBytes base.rt col.dataType c <;> rfl
  rw [Resolved.Fits, hstep] at hfits
  rw [hstep]
  exact loop_yields (optArray_yields_self hscalar cell) hfits

/-- The array of a loop over values. -/
theorem valueLoop_cells {col : Column} {r : Resolved} (hfits : r.Fits base col)
    (hret : r.ret = .binary) {f : Value → Option Bytes}
    (hrow : ∀ c, r.row base col.dataType c = valueRow base col.dataType f c) :
    ((valueLoop base col f).bind binaryArray).map Arr.cells =
      col.cells.mapM (r.row base col.dataType) := by
  have hstep : r.row base col.dataType = fun c =>
      (if isNull col.dataType c then .ok none
        else (ValueIn.valueAt base.rt col.dataType c).map f).map (optCell .bytes) := by
    funext c
    rw [hrow, valueRow]
    split
    · rfl
    · cases ValueIn.valueAt base.rt col.dataType c <;> rfl
  rw [Resolved.Fits, hstep, hret] at hfits
  rw [hstep]
  exact loop_yields (optArray_yields_self rfl .bytes) hfits

/-- What a function builds for a batch is what it computes for its rows, in order, or the
fault of the first row that has one. -/
theorem Resolved.build_rows (r : Resolved) (col : Column) (hfits : r.Fits base col) :
    (r.build base col).map Arr.cells = col.cells.mapM (r.row base col.dataType) := by
  cases r with
  | blob f =>
      rw [build]
      have hrow : Resolved.row base col.dataType (.blob f) = fun c =>
          (blobBytes base.rt col.dataType c).bind (f.row base) := rfl
      rw [hrow]
      cases hinput : col.cells.mapM (blobBytes base.rt col.dataType) with
      | ok input =>
          have hrows : f.Fits base input := by
            rwa [Fits, hrow, Traverse.mapM_bind_ok hinput] at hfits
          rw [Traverse.mapM_bind_ok hinput]
          exact BlobScalar.build_rows base f hrows
      | error e =>
          rw [Traverse.mapM_bind_error hinput]
          · rfl
          · intro c hc b hb
            cases hdt : isBlobType col.dataType with
            | true =>
                -- Every row of a column of blobs gives its bytes.
                obtain ⟨ys, hys, -⟩ := @Traverse.exists_ok_of_mapM _ _ _
                  (blobBytes base.rt col.dataType) col.cells fun c hc => by
                    exact ⟨_, (blobBytes_ok hdt (col.typed c hc)).1⟩
                rw [hys] at hinput
                cases hinput
            | false =>
                rw [blobBytes_none hdt hb]
                exact ⟨_, rfl⟩
  | decode | fromJson | untag tag | canonical mode =>
      exact blobLoop_cells hfits rfl fun _ => rfl
  | encode mode | msgpackEncode => exact valueLoop_cells hfits rfl fun _ => rfl

/-! ## Scans -/

/-- `RecordBatch::try_new` over one column that may hold nulls. -/
theorem finish_cells {field : Field DataType} (hnullable : field.nullable = true) (out : Arr) :
    (finish base field out).map RecordBatch.cells = .ok [out.cells] := by
  have htaken : BatchTaken [field] [out] := by
    simp [BatchTaken, rowsOf, hnullable]
  rw [finish, (base.rt.arrays.batch_makes _ _).ok htaken]
  rfl

/-- A batch of a scan has one column, and in it a cell for each row of the argument. -/
theorem process_rows {f : Scalar} {r : Resolved} (hr : f.resolve = .ok r) {field : Field DataType}
    (hnullable : field.nullable = true) (col : Column) (hfits : r.Fits base col) :
    (f.process base field col).map RecordBatch.cells =
      (col.cells.mapM (r.row base col.dataType)).map fun cells => [cells] := by
  have hrows := r.build_rows col hfits
  rw [Scalar.process, hr]
  cases hbuild : r.build base col with
  | error e =>
      rw [hbuild] at hrows
      rw [← hrows]
      change Except.map _ (Except.bind (r.build base col) _) = _
      rw [hbuild]
      rfl
  | ok out =>
      rw [hbuild] at hrows
      rw [← hrows]
      change Except.map _ (Except.bind (r.build base col) _) = _
      rw [hbuild]
      exact finish_cells hnullable out

/-- The results for a column that comes in batches.  DuckDB cuts a column into batches as it
likes. -/
def Scalar.scan (base : Base) (field : Field DataType) (f : Scalar) (batches : List Column) :
    Except Fault (List Cell) :=
  (batches.mapM fun col =>
    (f.process base field col).map fun batch => batch.cells.flatten).map List.flatten

/-- Arguments that a query may bind resolve in every batch, the missing tag of `untag`
excepted. -/
theorem Scalar.resolve_of_onBind {f : Scalar} {ret : DataType} (hbind : f.onBind = .ok ret)
    (htag : f ≠ .untag none) : ∃ r, f.resolve = .ok r := by
  cases f with
  | blob f => exact ⟨_, rfl⟩
  | decode mode => exact ⟨_, rfl⟩
  | fromJson => exact ⟨_, rfl⟩
  | untag tag =>
      cases tag with
      | none => exact absurd rfl htag
      | some n => exact ⟨_, rfl⟩
  | encode mode =>
      cases mode with
      | none => exact ⟨_, rfl⟩
      | some mode =>
          cases hmode : parseEncodeMode mode with
          | error e => simp [onBind, hmode, bind, Except.bind] at hbind
          | ok m => exact ⟨.encode m, by rw [resolve, modeOr, hmode]; rfl⟩
  | canonical mode =>
      cases mode with
      | none => exact ⟨_, rfl⟩
      | some mode =>
          cases hmode : parseCanon mode with
          | error e => simp [onBind, hmode, bind, Except.bind] at hbind
          | ok m => exact ⟨.canonical m, by rw [resolve, modeOr, hmode]; rfl⟩
  | msgpackEncode => exact ⟨_, rfl⟩

/-- A scan runs over the rows of all batches, so it does not show where they were cut. -/
theorem scan_eq {f : Scalar} {r : Resolved} (hr : f.resolve = .ok r) {field : Field DataType}
    (hnullable : field.nullable = true) {batches : List Column}
    (hbatches : ∀ col ∈ batches, col.dataType = dt ∧ r.Fits base col) :
    f.scan base field batches = (batches.flatMap Column.cells).mapM (r.row base dt) := by
  have hbatch (col : Column) (hcol : col ∈ batches) :
      (f.process base field col).map (fun batch => batch.cells.flatten) =
        col.cells.mapM (r.row base dt) := by
    obtain ⟨hdt, hfits⟩ := hbatches col hcol
    have hrows := process_rows hr hnullable col hfits
    rw [hdt] at hrows
    calc (f.process base field col).map (fun batch => batch.cells.flatten)
        = ((f.process base field col).map RecordBatch.cells).map List.flatten := by
          cases f.process base field col <;> rfl
      _ = ((col.cells.mapM (r.row base dt)).map fun cells => [cells]).map List.flatten := by
          rw [hrows]
      _ = col.cells.mapM (r.row base dt) := by
          cases col.cells.mapM (r.row base dt) with
          | error e => rfl
          | ok cells => exact congrArg Except.ok (List.append_nil cells)
  rw [Scalar.scan, Traverse.mapM_congr_ok hbatch, List.flatMap_def, ← Traverse.mapM_flatten_ok,
    List.mapM_map]
  rfl

/-- Once a call is bound, it resolves to a function of rows: however a column comes in batches
whose results stay within the offsets, the results are those of its rows, in their order. -/
theorem scan_rows (base : Base) {f : Scalar} {ret : DataType} (hbind : f.onBind = .ok ret)
    (htag : f ≠ .untag none) :
    ∃ r, f.resolve = .ok r ∧ ∀ (name : String) (dt : DataType) (batches : List Column),
      (∀ col ∈ batches, col.dataType = dt ∧ r.Fits base col) →
        f.scan base ⟨name, ret, true⟩ batches =
          (batches.flatMap Column.cells).mapM (r.row base dt) := by
  obtain ⟨r, hr⟩ := f.resolve_of_onBind hbind htag
  exact ⟨r, hr, fun _ _ _ hbatches => scan_eq hr rfl hbatches⟩

theorem Resolved.Fits.of_rows {r : Resolved} {col : Column} {cells : List Cell}
    (hrows : col.cells.mapM (r.row base col.dataType) = .ok cells)
    (hfit : cellsFit r.ret cells = true) : r.Fits base col := by
  intro cells' hrows'
  rw [hrows] at hrows'
  cases hrows'
  exact hfit

def sampleBase : Base := ⟨.bare, Definite.codec, FixMsgpack.codec, 8⟩

/-- A row with one item, a `NULL`, and a row with a byte too many. -/
def sampleColumns : List Column :=
  [⟨.binary, [.bytes [0x01], .null], by decide⟩, ⟨.binary, [.bytes [0x01, 0xff]], by decide⟩]

theorem scan_rows_samples :
    (Scalar.blob .isValid).scan sampleBase ⟨"result", .boolean, true⟩ sampleColumns =
      .ok [.bool true, .null, .bool false] := by
  obtain ⟨r, hr, hscan⟩ := scan_rows sampleBase (f := .blob .isValid) rfl (by simp)
  cases hr
  refine (hscan "result" .binary sampleColumns ?_).trans rfl
  exact List.forall_mem_cons.2 ⟨⟨rfl, .of_rows rfl rfl⟩,
    List.forall_mem_singleton.2 ⟨rfl, .of_rows rfl rfl⟩⟩

/-! ## Malformed rows -/

namespace Resolved

/-- The functions whose argument is a blob. -/
def ofBlobs : Resolved → Bool
  | .encode _ | .msgpackEncode => false
  | _ => true

/-- The decoder of a function does not take a blob; `is_valid` and `well_formed` take every
one. -/
def Rejects (base : Base) (b : Bytes) : Resolved → Prop
  | .blob .isValid | .blob .wellFormed | .encode _ | .msgpackEncode => False
  | .blob .msgpackToJson | .blob .msgpackDecode | .blob .msgpackToCbor =>
      (Msgpack.parse base.mp b).toOption = none
  | .blob .webauthnAuthdata => b.length < 37
  | .fromJson =>
      ((String.fromUTF8? ⟨b.toArray⟩).bind fun s => (base.rt.parseJson s).toOption) = none
  | .blob .toJson | .blob .diagnostic | .blob .tags | .decode | .untag _ | .canonical _ =>
      (VgiCbor.parseStrict base.codec b).toOption = none
  | .blob _ => (VgiCbor.parse base.codec b).toOption = none

/-- How many calls the stack has room for matters to `cwt_claims` alone, which calls itself
for each message inside another. -/
def EndsWithin (base : Base) (r : Resolved) (b : Bytes) : Prop :=
  r = .blob .cwtClaims → Cwt.EndsWithin base.rt.toPlatform base.codec base.calls b

end Resolved

theorem toOption_eq_none {ε α : Type} {x : Except ε α} (h : x.toOption = none) :
    ∃ e, x = .error e := by
  cases x with
  | error e => exact ⟨e, rfl⟩
  | ok a => cases h

/-- A function of blobs returns for every blob, and nothing for one that it does not take.  So
no blob ends a query while the stack has room. -/
theorem BlobScalar.cell_total (f : BlobScalar) (b : Bytes)
    (hcalls : Resolved.EndsWithin base (.blob f) b) :
    ∃ o, f.cell base b = .ok o ∧ (Resolved.Rejects base b (.blob f) → o = .null) := by
  cases f with
  | isValid | wellFormed => exact ⟨_, rfl, False.elim⟩
  | toJson | diagnostic | tags =>
      refine ⟨_, rfl, fun h => ?_⟩
      obtain ⟨e, he⟩ := toOption_eq_none h
      simp [okCell, Json.toJsonString, Diagnostic.diagnostic, Tags.tags, he, optCell, Except.map]
  | msgpackToJson | msgpackDecode | msgpackToCbor =>
      refine ⟨_, rfl, fun h => ?_⟩
      obtain ⟨e, he⟩ := toOption_eq_none h
      simp [okCell, mpToJsonString, Msgpack.toCbor, he, optCell, Except.map]
  | coseDecode | cosePayload | coseHeaders | coseX5t | coseX5chain | coseKey =>
      refine ⟨_, rfl, fun h => ?_⟩
      obtain ⟨e, he⟩ := toOption_eq_none h
      simp [okCell, Cose.coseDecode, Cose.cosePayload, Cose.coseX5t, Cose.coseX5chain,
        CoseKey.coseKey, he, optCell, Except.map, Except.bind]
  | cwtClaims =>
      obtain ⟨found, hfound⟩ := Option.isSome_iff_exists.1 (hcalls rfl)
      refine ⟨_, by rw [cell, cwtRow, Cwt.cwtClaims, hfound]; rfl, fun h => ?_⟩
      obtain ⟨e, he⟩ := toOption_eq_none h
      rw [Cwt.claimsValue, he] at hfound
      cases hfound
      rfl
  | webauthnAuthdata =>
      have hpanic := @Webauthn.webauthnAuthdata_noPanic base.rt.toPlatform base.codec b
      cases hdata : Webauthn.webauthnAuthdata base.rt.toPlatform base.codec b with
      | ok data =>
          refine ⟨_, by rw [cell, authdataRow, hdata]; rfl, fun h => ?_⟩
          rw [Webauthn.webauthnAuthdata, if_pos (show b.length < 37 from h)] at hdata
          cases hdata
      | error fault =>
          cases fault with
          | decode e => exact ⟨.null, by rw [cell, authdataRow, hdata]; rfl, fun _ => rfl⟩
          | panic m => exact absurd hdata (hpanic m)

/-- Each row of a column of blobs returns: a null for a null, and for a blob that is not
taken. -/
theorem Resolved.row_total {r : Resolved} (hr : r.ofBlobs = true) (hdt : isBlobType dt = true)
    (hc : holds dt c = true) (hcalls : ∀ b, blobOf c = some b → r.EndsWithin base b) :
    ∃ o, r.row base dt c = .ok o ∧ (c = .null → o = .null) ∧
      ∀ b, blobOf c = some b → r.Rejects base b → o = .null := by
  obtain ⟨hb, hnull⟩ := @blobBytes_ok base _ _ hdt hc
  have loop {α : Type} (cell : α → Cell) (f : Bytes → Option α)
      (hrow : r.row base dt c = blobRow base dt cell f c)
      (hrejects : ∀ b, r.Rejects base b → f b = none) :
      ∃ o, r.row base dt c = .ok o ∧ (c = .null → o = .null) ∧
        ∀ b, blobOf c = some b → r.Rejects base b → o = .null := by
    refine ⟨optCell cell ((blobOf c).bind f), by rw [hrow, blobRow, hb]; rfl, fun hc => ?_,
      fun b hblob h => ?_⟩
    · rw [hnull.2 hc]
      rfl
    · rw [hblob, Option.bind_some, hrejects b h]
      rfl
  cases r with
  | blob f =>
      have hrow : Resolved.row base dt (.blob f) c = f.row base (blobOf c) := by
        change (blobBytes base.rt dt c).bind _ = _
        rw [hb]
        rfl
      rw [hrow]
      cases hblob : blobOf c with
      | none => exact ⟨.null, rfl, fun _ => rfl, fun b hb => nomatch hb⟩
      | some b =>
          obtain ⟨o, ho, hrejects⟩ := f.cell_total b (hcalls b hblob)
          refine ⟨o, ho, fun hc => ?_, fun a ha h => ?_⟩
          · rw [hnull.2 hc] at hblob
            cases hblob
          · cases ha
            exact hrejects h
  | decode =>
      refine loop _ _ rfl fun b h => ?_
      obtain ⟨e, he⟩ := toOption_eq_none h
      simp [decodeBlob, Json.toJsonString, he]
  | fromJson =>
      refine loop _ _ rfl fun b h => ?_
      rw [fromJsonBlob]
      cases hs : String.fromUTF8? ⟨b.toArray⟩ with
      | none => rfl
      | some s =>
          rw [Rejects, hs] at h
          obtain ⟨e, he⟩ := toOption_eq_none h
          simp [Json.fromJsonStr, he]
  | untag tag =>
      refine loop _ _ rfl fun b h => ?_
      obtain ⟨e, he⟩ := toOption_eq_none h
      simp [untagBlob, Tags.untag, he, Except.map]
  | canonical mode =>
      refine loop _ _ rfl fun b h => ?_
      obtain ⟨e, he⟩ := toOption_eq_none h
      simp [canonicalBlob, VgiCbor.canonical, he]
  | encode mode | msgpackEncode => cases hr

/-- A scan of blobs whose results stay within the offsets returns one result for each row:
`NULL` for a `NULL` and for a blob that the decoder of the function does not take. -/
theorem scan_blobs (base : Base) {f : Scalar} {r : Resolved} (hresolve : f.resolve = .ok r)
    (hr : r.ofBlobs = true) {field : Field DataType} (hnullable : field.nullable = true)
    {dt : DataType} (hdt : isBlobType dt = true) (batches : List Column)
    (hbatches : ∀ col ∈ batches, col.dataType = dt ∧ r.Fits base col)
    (hcalls : ∀ c ∈ batches.flatMap Column.cells, ∀ b, blobOf c = some b → r.EndsWithin base b) :
    ∃ out, f.scan base field batches = .ok out ∧
      List.Forall₂ (fun c o => (c = .null → o = .null) ∧
        ∀ b, blobOf c = some b → r.Rejects base b → o = .null)
        (batches.flatMap Column.cells) out := by
  have hrow (c : Cell) (hc : c ∈ batches.flatMap Column.cells) :
      ∃ o, r.row base dt c = .ok o ∧ (c = .null → o = .null) ∧
        ∀ b, blobOf c = some b → r.Rejects base b → o = .null := by
    obtain ⟨col, hcol, hmem⟩ := List.mem_flatMap.1 hc
    have hholds := col.typed c hmem
    rw [(hbatches col hcol).1] at hholds
    exact r.row_total hr hdt hholds (hcalls c hc)
  obtain ⟨out, hout, hall⟩ := Traverse.exists_ok_of_mapM fun c hc =>
    (hrow c hc).imp fun o ho => ho.1
  refine ⟨out, by rw [scan_eq hresolve hnullable hbatches, hout], ?_⟩
  rw [List.forall₂_iff_zip] at hall ⊢
  refine ⟨hall.1, fun hmem => ?_⟩
  obtain ⟨o, ho, hspec⟩ := hrow _ (List.of_mem_zip hmem).1
  rw [hall.2 hmem] at ho
  cases ho
  exact hspec

theorem scan_blobs_samples :
    ∃ o, (Scalar.canonical (some " CTAP2")).scan sampleBase ⟨"result", .binary, true⟩
      sampleColumns = .ok [o, .null, .null] := by
  have hmode : (Cloud.trim " CTAP2").toLower = "ctap2" := by decide +kernel
  have hresolve : (Scalar.canonical (some " CTAP2")).resolve = .ok (.canonical .ctap2) := by
    rw [Scalar.resolve, modeOr, parseCanon, CopyDestination.parseCanon, hmode]
    rfl
  obtain ⟨out, hout, hall⟩ := @scan_blobs sampleBase _ _ hresolve rfl
    ⟨"result", .binary, true⟩ rfl .binary rfl sampleColumns
    (List.forall_mem_cons.2 ⟨⟨rfl, .of_rows rfl rfl⟩,
      List.forall_mem_singleton.2 ⟨rfl, .of_rows rfl rfl⟩⟩)
    fun _ _ _ _ h => nomatch h
  cases hall with
  | cons _ hall => cases hall with
    | cons hnull hall => cases hall with
      | cons hbad hall =>
          cases hall
          rw [hout, hnull.1 rfl, hbad.2 [0x01, 0xff] rfl rfl]
          exact ⟨_, rfl⟩

end VgiCbor.Scalars
