import VgiCbor.Core.Seq
import VgiCbor.Lib.FanOut
import VgiCbor.Lib.StreamCut
import VgiCbor.Security.Attestation
import VgiCbor.Worker.Scalars

/-!
# The table functions

A table function makes any number of rows of one input row.  With each emitted batch goes the
number of the input row that each of its rows came from, so that a correlated join can put the
columns of the outer query back beside them.  Joined so, a column that comes in any batches
whose results stay within the offsets gives the nested loop over its rows and their items
(`lateral_join`).
-/

namespace VgiCbor.TableFunctions

open ArrayLibrary ArrowIo MachineInt Scalars FanOut ItemStream

variable {σ τ : Type}

/-! ## The loop over the input rows -/

/-- What the builders hold: a row for each item, and the number of its input row.  The two
lists grow together. -/
structure Emission (σ : Type) where
  rows : List σ
  parentRows : List I32

/-- One more row. -/
def Emission.push (row : Nat) (e : Emission σ) (item : σ) : Emission σ :=
  ⟨e.rows ++ [item], e.parentRows ++ [I32.wrap row]⟩

section Process

variable (base : Base)

/-- The items of an input row; a null has none. -/
def rowItems (decode : Bytes → Except Fault (List σ)) : Option Bytes → Except Fault (List σ)
  | none => .ok []
  | some bytes => decode bytes

/-- One pass of the loop: the items of one input row are pushed, all with its number. -/
def emitRow (decode : Bytes → Except Fault (List σ)) (dt : DataType) (e : Emission σ)
    (row : Cell × Nat) : Except Fault (Emission σ) :=
  (blobBytes base.rt dt row.1).bind fun bytes =>
    (rowItems decode bytes).map fun items => items.foldl (Emission.push row.2) e

/-- The loop over the rows of a batch.  A row that fails or panics ends it without a batch. -/
def emitRows (decode : Bytes → Except Fault (List σ)) (col : Column) :
    Except Fault (Emission σ) :=
  col.cells.zipIdx.foldlM (emitRow base decode col.dataType) ⟨[], []⟩

/-- An emitted batch with its provenance: for each row, the number of the input row it came
from. -/
structure Emitted where
  batch : RecordBatch
  parentRows : List I32

/-- `emit_with`, once the columns are built. -/
def emitWith (schema : Schema) (columns : List Arr) (parentRows : List I32) :
    Except Fault Emitted :=
  match base.rt.arrays.tryNewBatch schema columns with
  | .ok batch => .ok ⟨batch, parentRows⟩
  | .error e => .error (.runtimeError e)

/-! ## The functions -/

def seqSchema : Schema := [⟨"idx", .int .int64, false⟩, nullable "value" .utf8]

def i64Cell (n : I64) : Cell := .int (Integer.ofI64 n)

def seqColumns (items : List Seq.SeqItem) : Except Fault (List Arr) :=
  columnsOf [optArray (.int .int64) i64Cell (items.map fun i => some i.idx),
    stringArray (items.map fun i => some i.valueJson)]

def attestationSchema : Schema :=
  [nullable "fmt" .utf8, nullable "aaguid" .utf8, nullable "sign_count" (.int .uint32),
    nullable "rp_id_hash" .binary, nullable "up" .boolean, nullable "uv" .boolean,
    nullable "cred_id" .binary, nullable "alg" .utf8, nullable "sig" .binary,
    nullable "x5c" (.list (nullable "item" .binary)), nullable "att_stmt" .utf8]

/-- An attestation object that is not valid has no row; a panic ends the loop. -/
def attestationItems (bytes : Bytes) : Except Fault (List Webauthn.AttestationRow) :=
  match Webauthn.webauthnAttestation base.rt.toPlatform base.codec bytes with
  | .ok row => .ok [row]
  | .error (.decode _) => .ok []
  | .error (.panic message) => .error (.panic message)

def attestationColumns (rows : List Webauthn.AttestationRow) : Except Fault (List Arr) :=
  columnsOf
    [stringArray (rows.map fun r => some r.fmt), stringArray (rows.map fun r => r.aaguid),
      u32OptArray (rows.map fun r => some r.signCount),
      binaryArray (rows.map fun r => some r.rpIdHash), boolOptArray (rows.map fun r => some r.up),
      boolOptArray (rows.map fun r => some r.uv), binaryArray (rows.map fun r => r.credId),
      stringArray (rows.map fun r => r.alg), binaryArray (rows.map fun r => r.sig),
      listBinaryArray base.rt (rows.map fun r => some r.x5c),
      stringArray (rows.map fun r => some r.attStmt)]

inductive TableFunction where
  | seqDecode
  | webauthnAttestation

/-- Run a function over a batch: emit the rows, then build the columns, then the batch. -/
def processOut (f : TableFunction) (col : Column) : Except Fault Emitted :=
  match f with
  | .seqDecode => do
      let e ← emitRows base
        (fun bytes => .ok (Seq.seqDecode base.codec base.rt.toPlatform bytes)) col
      let columns ← seqColumns e.rows
      emitWith base seqSchema columns e.parentRows
  | .webauthnAttestation => do
      let e ← emitRows base (attestationItems base) col
      let columns ← attestationColumns base e.rows
      emitWith base attestationSchema columns e.parentRows

end Process

/-! ## What the functions are for -/

/-- The correlated join: each emitted row beside the outer row that it came from.  DuckDB does
this with the numbers that the function reports. -/
def lateral (outer : List τ) (out : Emitted) : List (τ × List Cell) :=
  stamp outer (out.batch.rows.zip (out.parentRows.map fun p => p.val.toNat))

def seqCells : List (Seq.SeqItem → Cell) := [fun i => i64Cell i.idx, fun i => .text i.valueJson]

def attestationCells : List (Webauthn.AttestationRow → Cell) :=
  [fun r => .text r.fmt, fun r => optCell .text r.aaguid, fun r => u32Cell r.signCount,
    fun r => .bytes r.rpIdHash, fun r => .bool r.up, fun r => .bool r.uv,
    fun r => optCell .bytes r.credId, fun r => optCell .text r.alg, fun r => optCell .bytes r.sig,
    fun r => listCell r.x5c, fun r => .text r.attStmt]

section Spec

variable (base : Base)

/-- The items of a sequence in a cell. -/
def seqItems (c : Cell) : List Seq.SeqItem :=
  ((blobOf c).map (Seq.seqDecode base.codec base.rt.toPlatform)).getD []

/-- The attestation object in a cell. -/
def attested (c : Cell) : List Webauthn.AttestationRow :=
  ((blobOf c).bind fun bytes =>
    (Webauthn.webauthnAttestation base.rt.toPlatform base.codec bytes).toOption).toList

namespace TableFunction

/-- The rows that a function makes of a cell, whatever batch it is in. -/
def rowsOf : TableFunction → Cell → List (List Cell)
  | .seqDecode, c => (seqItems base c).map fun item => seqCells.map fun cell => cell item
  | .webauthnAttestation, c =>
      (attested base c).map fun row => attestationCells.map fun cell => cell row

def schema : TableFunction → Schema
  | .seqDecode => seqSchema
  | .webauthnAttestation => attestationSchema

/-- The row numbers of a batch fit in 32 bits, and what is made of its rows stays within the
offsets of the result columns. -/
def Fits (f : TableFunction) (col : Column) : Prop :=
  col.cells.length ≤ 0x80000000 ∧ fieldsFit f.schema (col.cells.flatMap (f.rowsOf base)) = true

end TableFunction

end Spec

/-! ## A batch -/

theorem foldl_push_row (row : Nat) (items : List σ) (e : Emission σ) :
    items.foldl (Emission.push row) e =
      ⟨e.rows ++ items, e.parentRows ++ items.map fun _ => I32.wrap row⟩ := by
  induction items generalizing e with
  | nil => simp
  | cons item items ih => rw [List.foldl_cons, ih]; simp [Emission.push]

variable {base : Base} {dt : DataType} {decode : Bytes → Except Fault (List σ)}
  {fan : Cell → List σ}

theorem emitRows_from (rows : List (Cell × Nat)) (e : Emission σ)
    (hfan : ∀ row ∈ rows, (blobBytes base.rt dt row.1).bind (rowItems decode) = .ok (fan row.1)) :
    rows.foldlM (emitRow base decode dt) e =
      .ok ⟨e.rows ++ (fanOut fan rows).map Prod.fst,
        e.parentRows ++ (fanOut fan rows).map fun x => I32.wrap x.2⟩ := by
  induction rows generalizing e with
  | nil => simp [fanOut]; rfl
  | cons row rows ih =>
      have hrow : emitRow base decode dt e row =
          .ok ((fan row.1).foldl (Emission.push row.2) e) := by
        have hitems := hfan row List.mem_cons_self
        rw [emitRow]
        cases hbytes : blobBytes base.rt dt row.1 with
        | error fault => rw [hbytes] at hitems; cases hitems
        | ok bytes =>
            rw [hbytes] at hitems
            change (rowItems decode bytes).map _ = _
            rw [show rowItems decode bytes = .ok (fan row.1) from hitems]
            rfl
      rw [List.foldlM_cons, hrow]
      change rows.foldlM _ _ = _
      rw [ih _ fun r hr => hfan r (List.mem_cons_of_mem _ hr), foldl_push_row]
      simp [fanOut, Function.comp_def]

/-- The loop emits the items of all rows, each with the number of its row.  The rows come in
the order of the input. -/
theorem emitRows_eq {col : Column}
    (hfan : ∀ c ∈ col.cells, (blobBytes base.rt col.dataType c).bind (rowItems decode) =
      .ok (fan c)) :
    emitRows base decode col =
      .ok ⟨(fanOut fan col.cells.zipIdx).map Prod.fst,
        (fanOut fan col.cells.zipIdx).map fun x => I32.wrap x.2⟩ := by
  rw [emitRows, emitRows_from _ _ fun row hrow => hfan _ (List.fst_mem_of_mem_zipIdx hrow)]
  rfl

/-! ## The emitted batch -/

/-- The emitted batch has the row of every item, and the numbers it was given. -/
theorem emitWith_rows {ρ : Type} {rows : List ρ} {columns : List Arr} {cells : List (ρ → Cell)}
    {schema : Schema} (h : Columns rows columns cells) (hadmitted : Admitted rows schema cells)
    (hne : cells ≠ []) (parentRows : List I32) :
    ∃ out, emitWith base schema columns parentRows = .ok out ∧
      out.batch.rows = rows.map (fun row => cells.map fun cell => cell row) ∧
      out.parentRows = parentRows := by
  have hsome : columns ≠ [] := by
    rintro rfl
    exact hne (List.length_eq_zero_iff.1 h.length_eq.symm)
  have hrows := rowsOf_eq hsome h.len_eq
  have htaken : BatchTaken schema columns := by
    refine ⟨hsome, by rw [hadmitted.length_eq, h.length_eq], ?_, ?_⟩
    · rw [hrows]
      exact h.len_eq
    · exact fun fc hfc => (h.admitted hadmitted fc hfc).imp_right Arr.nullCount_of_forall
  have hbatch : base.rt.arrays.tryNewBatch schema columns = .ok ⟨rows.length, columns⟩ := by
    rw [(base.rt.arrays.batch_makes schema columns).ok htaken, hrows]
  refine ⟨⟨⟨rows.length, columns⟩, parentRows⟩, by rw [emitWith, hbatch], ?_, rfl⟩
  change Segments.toRows rows.length (columns.map Arr.cells) = _
  rw [← Arr.columnCells_eq_map, h.columnCells, Segments.toRows_map]

/-- What is made of all rows, column by column. -/
theorem fieldsFit_rows {σ : Type} {schema : Schema} {cells : List (σ → Cell)} {items : List σ}
    (hlen : schema.length = cells.length)
    (hfit : fieldsFit schema (items.map fun item => cells.map fun cell => cell item) = true) :
    List.Forall₂ (fun field cell => cellsFit field.dataType (items.map cell) = true)
      schema cells :=
  fieldsFit_forall hlen (fun _ _ => .inl rfl) hfit

theorem seqColumns_cells {items : List Seq.SeqItem}
    (hfit : fieldsFit seqSchema (items.map fun i => seqCells.map fun cell => cell i) = true) :
    ∃ columns, seqColumns items = .ok columns ∧ Columns items columns seqCells := by
  apply columnsOf_cells _ (fieldsFit_rows rfl hfit)
  exact .cons (optArray_yields rfl _ _ _) <| .cons (optArray_yields rfl _ _ _) .nil

theorem attestationColumns_cells {rows : List Webauthn.AttestationRow}
    (hfit : fieldsFit attestationSchema
      (rows.map fun r => attestationCells.map fun cell => cell r) = true) :
    ∃ columns, attestationColumns base rows = .ok columns ∧
      Columns rows columns attestationCells := by
  apply columnsOf_cells _ (fieldsFit_rows rfl hfit)
  exact .cons (optArray_yields rfl _ _ _) <| .cons (optArray_yields rfl _ _ _) <|
    .cons (optArray_yields rfl _ _ _) <| .cons (optArray_yields rfl _ _ _) <|
    .cons (optArray_yields rfl _ _ _) <| .cons (optArray_yields rfl _ _ _) <|
    .cons (optArray_yields rfl _ _ _) <| .cons (optArray_yields rfl _ _ _) <|
    .cons (optArray_yields rfl _ _ _) <| .cons (listBinaryArray_yields _ _) <|
    .cons (optArray_yields rfl _ _ _) .nil

/-! ## A batch -/

/-- An emitted batch carries what is made of each input row, in order, with its number beside
it. -/
structure Carries (fan : Cell → List (List Cell)) (rows : List (Cell × Nat)) (out : Emitted) :
    Prop where
  rows_eq : out.batch.rows = (fanOut fan rows).map Prod.fst
  parents_eq : out.parentRows = (fanOut fan rows).map fun x => I32.wrap x.2

/-- What is emitted for a batch. -/
theorem emitRows_fan {col : Column} (hdt : isBlobType col.dataType = true)
    (hitems : ∀ c, rowItems decode (blobOf c) = .ok (fan c)) :
    emitRows base decode col =
      .ok ⟨(fanOut fan col.cells.zipIdx).map Prod.fst,
        (fanOut fan col.cells.zipIdx).map fun x => I32.wrap x.2⟩ := by
  apply emitRows_eq
  intro c hc
  rw [(blobBytes_ok hdt (col.typed c hc)).1]
  exact hitems c

/-- The items of a loop in columns: their rows are emitted with the numbers of their parents. -/
theorem emitted_rows {fan : Cell → List σ} {rows : List (Cell × Nat)} {columns : List Arr}
    {cells : List (σ → Cell)} {schema : Schema}
    (h : Columns ((fanOut fan rows).map Prod.fst) columns cells)
    (hadmitted : Admitted ((fanOut fan rows).map Prod.fst) schema cells) (hne : cells ≠ []) :
    ∃ out, emitWith base schema columns ((fanOut fan rows).map fun x => I32.wrap x.2) = .ok out ∧
      Carries (fun c => (fan c).map fun item => cells.map fun cell => cell item) rows out := by
  obtain ⟨out, hout, hrows, hparents⟩ := @emitWith_rows base _ _ _ _ _ h hadmitted hne
    ((fanOut fan rows).map fun x => I32.wrap x.2)
  refine ⟨out, hout, ?_, ?_⟩
  · rw [hrows, fanOut_map, List.map_map, List.map_map]
    rfl
  · rw [hparents, fanOut_map, List.map_map]
    rfl

/-- A function emits what it makes of each row, provided that the columns have room for it. -/
theorem processOut_rows {f : TableFunction} {col : Column} (hdt : isBlobType col.dataType = true)
    (hfits : f.Fits base col) :
    ∃ out, processOut base f col = .ok out ∧ Carries (f.rowsOf base) col.cells.zipIdx out := by
  cases f with
  | seqDecode =>
      have hloop := @emitRows_fan _ base
        (fun bytes => .ok (Seq.seqDecode base.codec base.rt.toPlatform bytes))
        (seqItems base) _ hdt fun c => by
          rw [seqItems]
          cases blobOf c <;> rfl
      obtain ⟨columns, hcolumns, hcells⟩ := @seqColumns_cells
        ((fanOut (seqItems base) col.cells.zipIdx).map Prod.fst) (by
          rw [fanOut_fst, List.zipIdx_map_fst, List.map_flatMap]
          exact hfits.2)
      have hbody : processOut base .seqDecode col =
          emitWith base seqSchema columns
            ((fanOut (seqItems base) col.cells.zipIdx).map fun x => I32.wrap x.2) := by
        rw [processOut, hloop]
        change (seqColumns _).bind _ = _
        rw [hcolumns]
        rfl
      rw [hbody]
      exact emitted_rows hcells
        (by simp [Admitted, seqSchema, seqCells, nullable, i64Cell, Cell.isNull])
        (by simp [seqCells])
  | webauthnAttestation =>
      have hloop := @emitRows_fan _ base (attestationItems base) (attested base) _ hdt fun c => by
          rw [attested]
          cases blobOf c with
          | none => rfl
          | some bytes =>
              have hpanic := @Webauthn.webauthnAttestation_noPanic base.rt.toPlatform base.codec bytes
              rw [rowItems, attestationItems, Option.bind_some]
              cases hrow : Webauthn.webauthnAttestation base.rt.toPlatform base.codec bytes with
              | ok row => rfl
              | error fault =>
                  cases fault with
                  | decode e => rfl
                  | panic m => exact absurd hrow (hpanic m)
      obtain ⟨columns, hcolumns, hcells⟩ := @attestationColumns_cells base
        ((fanOut (attested base) col.cells.zipIdx).map Prod.fst)
        (by
          rw [fanOut_fst, List.zipIdx_map_fst, List.map_flatMap]
          exact hfits.2)
      have hbody : processOut base .webauthnAttestation col =
          emitWith base attestationSchema columns
            ((fanOut (attested base) col.cells.zipIdx).map fun x => I32.wrap x.2) := by
        rw [processOut, hloop]
        change (attestationColumns base _).bind _ = _
        rw [hcolumns]
        rfl
      rw [hbody]
      exact emitted_rows hcells
        (admitted_of_nullable _ (by simp [attestationSchema, nullable]) rfl)
        (by simp [attestationCells])

/-- The numbers of the parents survive in 32 bits, as long as the batch has no more than 2^31
rows. -/
theorem parents_read {fan : Cell → List (List Cell)} {cells : List Cell}
    (hlen : cells.length ≤ 0x80000000) :
    ((fanOut fan cells.zipIdx).map fun x => I32.wrap x.2).map (fun p => p.val.toNat) =
      (fanOut fan cells.zipIdx).map Prod.snd := by
  rw [List.map_map]
  apply List.map_congr_left
  intro x hx
  obtain ⟨row, hrow, hitem⟩ := List.mem_flatMap.1 hx
  obtain ⟨item, -, rfl⟩ := List.mem_map.1 hitem
  have hlt := (List.mem_zipIdx hrow).2.1
  rw [Function.comp_apply, I32.wrap_val_of_mem (by omega) (by omega)]
  exact Int.toNat_natCast _

/-- However a column comes in batches, a correlated join with a table function is the nested
loop over its rows and what the function makes of each. -/
theorem lateral_join (base : Base) (f : TableFunction) (batches : List (List τ × Column))
    (hbatches : ∀ b ∈ batches, b.1.length = b.2.cells.length ∧
      isBlobType b.2.dataType = true ∧ f.Fits base b.2) :
    ∃ outs, batches.mapM (fun b => processOut base f b.2) = .ok outs ∧
      ((batches.zip outs).flatMap fun x => lateral x.1.1 x.2) =
        nestedLoop (f.rowsOf base) (batches.flatMap fun b => b.1.zip b.2.cells) := by
  obtain ⟨outs, houts, hall⟩ := Traverse.exists_ok_of_mapM fun b hb => by
    obtain ⟨-, hdt, hfits⟩ := hbatches b hb
    obtain ⟨out, hout, -⟩ := processOut_rows hdt hfits
    exact ⟨out, hout⟩
  refine ⟨outs, houts, ?_⟩
  clear houts
  induction hall with
  | nil => rfl
  | @cons b out batches outs hout _ ih =>
      obtain ⟨hlen, hdt, hfits⟩ := hbatches b List.mem_cons_self
      obtain ⟨out', hout', hcarries⟩ := processOut_rows hdt hfits
      rw [hout] at hout'
      cases hout'
      have hjoin : lateral b.1 out = nestedLoop (f.rowsOf base) (b.1.zip b.2.cells) := by
        rw [lateral, hcarries.rows_eq, hcarries.parents_eq, parents_read hfits.1,
          ← List.zip_of_prod rfl rfl, stamp_fanOut _ hlen]
      rw [List.zip_cons_cons, List.flatMap_cons, hjoin,
        ih fun b hb => hbatches b (List.mem_cons_of_mem _ hb), List.flatMap_cons]
      simp only [nestedLoop, List.flatMap_append]

/-- Two items, a `NULL`, and one item before bytes that are none. -/
def sampleBatches : List (List Nat × Column) :=
  [([1, 2], ⟨.binary, [.bytes [0x01, 0x02], .null], by decide⟩),
    ([3], ⟨.binary, [.bytes [0x03, 0xff]], by decide⟩)]

theorem lateral_join_sequences :
    ∃ outs, sampleBatches.mapM (fun b => processOut sampleBase .seqDecode b.2) = .ok outs ∧
      ((sampleBatches.zip outs).flatMap fun x => lateral x.1.1 x.2) =
        [(1, [i64Cell (I64.wrap 0), .text ""]), (1, [i64Cell (I64.wrap 1), .text ""]),
          (3, [i64Cell (I64.wrap 0), .text ""])] := by
  have hpair : TableFunction.seqDecode.rowsOf sampleBase (.bytes [0x01, 0x02]) =
      [[i64Cell (I64.wrap 0), .text ""], [i64Cell (I64.wrap 1), .text ""]] := by
    change (Seq.seqDecode Definite.codec Platform.bare [0x01, 0x02]).map _ = _
    rw [Seq.seqDecode, Seq.parseSeq, @parseLoop_ok _ _ _ _ _ _ [0x02] _ rfl,
      @parseLoop_ok _ _ _ _ _ _ [] _ rfl, parseLoop_nil]
    rfl
  have hcut : TableFunction.seqDecode.rowsOf sampleBase (.bytes [0x03, 0xff]) =
      [[i64Cell (I64.wrap 0), .text ""]] := by
    change (Seq.seqDecode Definite.codec Platform.bare [0x03, 0xff]).map _ = _
    rw [Seq.seqDecode, Seq.parseSeq, @parseLoop_ok _ _ _ _ _ _ [0xff] _ rfl,
      parseLoop_error (by simp) rfl]
    rfl
  have hnull : TableFunction.seqDecode.rowsOf sampleBase .null = [] := rfl
  have hfirst : fieldsFit seqSchema (([.bytes [0x01, 0x02], .null] : List Cell).flatMap
      (TableFunction.seqDecode.rowsOf sampleBase)) = true := by
    simp only [List.flatMap_cons, List.flatMap_nil, hpair, hnull]
    decide
  have hsecond : fieldsFit seqSchema (([.bytes [0x03, 0xff]] : List Cell).flatMap
      (TableFunction.seqDecode.rowsOf sampleBase)) = true := by
    simp only [List.flatMap_cons, List.flatMap_nil, hcut]
    decide
  obtain ⟨outs, houts, hjoin⟩ := lateral_join sampleBase .seqDecode sampleBatches
    (List.forall_mem_cons.2 ⟨⟨rfl, rfl, by decide, hfirst⟩,
      List.forall_mem_singleton.2 ⟨rfl, rfl, by decide, hsecond⟩⟩)
  refine ⟨outs, houts, hjoin.trans ?_⟩
  simp only [sampleBatches, nestedLoop, List.flatMap_cons, List.flatMap_nil, List.zip_cons_cons,
    List.zip_nil_right, List.append_nil, List.cons_append, List.nil_append, hpair, hnull, hcut]
  rfl

end VgiCbor.TableFunctions
