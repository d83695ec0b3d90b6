import VgiCbor.Worker.ColumnRefinement
import VgiCbor.Worker.CopyCommon

/-!
# Record batches, row by row

`buildBatch` projects a list of rows onto the target columns and builds one
record batch.  Rows do not influence each other: a batch builds exactly when each
of its rows builds alone, and its columns are the columns of its rows, one after
the other (`buildBatch_yields`, `batch_rows_independent`).
-/

namespace VgiCbor

open Outcome ArrayLibrary ValueOut

namespace Copy

/-- The value a row has for the column `name` at position `idx`: the first entry
whose key is that text, or the item at that position; null when it has none. -/
def project (shape : RowShape) (name : String) (idx : Nat) (row : Value) : Value :=
  match shape, row with
  | .map, .map entries => ((entries.find? fun e => isKey name e.1).map Prod.snd).getD .null
  | .array, .array items => items[idx]?.getD .null
  | _, _ => .null

/-- Report a refused record batch.  Unlike a column's error it names no column. -/
def batchError {α : Type} (result : Except String α) : Except Fault α :=
  match result with
  | .ok a => .ok a
  | .error e => .error (.runtimeError s!"build batch: {e}")

/-- Project `rows` onto `schema` and build one record batch.  The columns are built one after
the other, so an error is that of the first column that has one. -/
def buildBatch (rt : Runtime) (schema : Schema) (shape : RowShape) (rows : List Value) :
    Except Fault RecordBatch :=
  (schema.zipIdx.mapM fun (column : Field DataType × Nat) =>
    buildColumn rt column.1.dataType column.1.name
      (rows.map (project shape column.1.name column.2))).bind
        fun columns => batchError (rt.arrays.tryNewBatch schema columns)

/-- A row that builds a batch of its own.  This is the test by which a lenient run keeps a
row. -/
def converts (rt : Runtime) (schema : Schema) (shape : RowShape) (row : Value) : Bool :=
  (buildBatch rt schema shape [row]).isOk

/-- The rows that build a batch of their own, in order.  A panic ends the search. -/
def keptRows (rt : Runtime) (schema : Schema) (shape : RowShape) :
    List Value → Except Fault (List Value)
  | [] => .ok []
  | row :: rows =>
      match buildBatch rt schema shape [row] with
      | .ok _ => (keptRows rt schema shape rows).map fun kept => row :: kept
      | .error e => if e.isRpc then keptRows rt schema shape rows else .error e

/-- Convert the rows of a batch at once.  Under `ignoreErrors` a batch that is refused is
retried a row at a time, so that only the rows that fail alone are dropped; a panic is not
caught. -/
def convertRows (rt : Runtime) (schema : Schema) (shape : RowShape) (ignoreErrors : Bool)
    (rows : List Value) : Except Fault RecordBatch :=
  match buildBatch rt schema shape rows with
  | .ok batch => .ok batch
  | .error e =>
      if ignoreErrors && e.isRpc then
        (keptRows rt schema shape rows).bind fun kept => buildBatch rt schema shape kept
      else .error e

/-! ## Targets -/

/-- A target table that COPY FROM can load: at least one column, and a conversion
for the type of each. -/
structure Target where
  schema : Schema
  nonempty : schema ≠ []
  supported : supportedFields schema = true

/-- Every list, map, text and blob column of the rows stays within its offsets.  Rows that do
not fit together can make the builders panic, even if each builds alone. -/
def RowsFit (rt : Runtime) (target : Target) (shape : RowShape) (rows : List Value) : Prop :=
  ∀ c ∈ target.schema.zipIdx,
    fits rt c.1.dataType (rows.map (project shape c.1.name c.2)) = true

/-- The column takes the cell: it is nullable, or the cell is not null.  A column
of type `NULL` keeps no mask, so its cells do not count as null. -/
def columnTakes (column : Field DataType) (cell : Cell) : Bool :=
  column.nullable || (column.dataType.isNullType || !cell.isNull)

/-- The cell a row has in one column of the target, if it converts. -/
def cellAt (rt : Runtime) (shape : RowShape) (column : Field DataType × Nat) (row : Value) :
    Option Cell :=
  (rowCell rt column.1.dataType (project shape column.1.name column.2 row)).filter
    (columnTakes column.1)

/-- The cells of one row, if it converts: what the row means to the target table, whatever
rows stand around it. -/
def rowCells (rt : Runtime) (target : Target) (shape : RowShape) (row : Value) :
    Option (List Cell) :=
  target.schema.zipIdx.mapM fun column => cellAt rt shape column row

variable {rt : Runtime} {shape : RowShape}

/-! ## Null arrays -/

theorem arrow_makes {path : String} {result : Except String Arr} {taken : Prop} {made a : Arr}
    (h : Makes result taken made) (ha : arrow path result = .ok a) : a = made := by
  cases result with
  | ok b =>
      cases ha
      exact (h.of_ok rfl).2.symm
  | error e => cases ha

theorem ok_of_bind {α β : Type} {x : Except Fault α} {f : α → Except Fault β} {b : β}
    (h : x.bind f = .ok b) : ∃ a, x = .ok a ∧ f a = .ok b := by
  cases x with
  | ok a => exact ⟨a, rfl, h⟩
  | error e => cases h

/-- Only a column of type `NULL` is a null array.  Such an array counts no nulls, so it passes
the null check under any field. -/
theorem buildColumn_isNullArray {dt : DataType} {path : String} {values : List Value} {a : Arr}
    (h : buildColumn rt dt path values = .ok a) : a.isNullArray = dt.isNullType := by
  unfold buildColumn at h
  split at h
  case h_1 => cases h; rfl
  case h_2 =>
    obtain ⟨rows, -, h⟩ := ok_of_bind h
    obtain ⟨column, -, h⟩ := ok_of_bind h
    rw [arrow_makes (rt.arrays.fixedSizeList_makes _ _ _ _) h]
    rfl
  case h_3 =>
    obtain ⟨flat, -, h⟩ := ok_of_bind h
    obtain ⟨column, -, h⟩ := ok_of_bind h
    rw [arrow_makes (rt.arrays.list_makes _ _ _ _) h]
    rfl
  case h_4 =>
    obtain ⟨columns, -, h⟩ := ok_of_bind h
    split at h
    · cases h
    · rw [arrow_makes (rt.arrays.struct_makes _ _ _) h]
      rfl
  case h_5 =>
    obtain ⟨flat, -, h⟩ := ok_of_bind h
    obtain ⟨keys, -, h⟩ := ok_of_bind h
    obtain ⟨vals, -, h⟩ := ok_of_bind h
    obtain ⟨entries, -, h⟩ := ok_of_bind h
    obtain ⟨offsets, -, h⟩ := ok_of_bind h
    rw [arrow_makes (rt.arrays.map_makes _ _ _ _ _) h]
    rfl
  case h_6 =>
    obtain ⟨flat, -, h⟩ := ok_of_bind h
    cases h
  case h_7 => cases h
  case h_8 =>
    split at h
    · cases h
    next hleaf =>
      -- No scalar but `NULL` is left to the leaf arm.
      have htype : dt.isNullType = false := by
        cases dt <;> first
          | rfl
          | cases hleaf
      obtain ⟨cells, -, h⟩ := ok_of_bind h
      rw [htype]
      split at h
      · rw [arrow_makes (rt.arrays.decimal_makes _ _ _) h]
        rfl
      · cases h
        rfl

/-! ## The columns of a batch -/

/-- A column of the batch before its null check: it builds exactly when every row has a cell,
and holds these cells. -/
theorem buildColumn_project_yields (rt : Runtime) {target : Target} {rows : List Value}
    (hfits : RowsFit rt target shape rows) {column : Field DataType × Nat}
    (hcolumn : column ∈ target.schema.zipIdx) :
    Yields ((buildColumn rt column.1.dataType column.1.name
        (rows.map (project shape column.1.name column.2))).map Arr.cells)
      (rows.mapM fun row =>
        rowCell rt column.1.dataType (project shape column.1.name column.2 row)) := by
  have hsupported : supported column.1.dataType = true :=
    supportedFields_iff.1 target.supported _ (List.fst_mem_of_mem_zipIdx hcolumn)
  have hyields := buildColumn_yields rt hsupported column.1.name _ (hfits column hcolumn)
  rwa [List.mapM_map] at hyields

/-- `RecordBatch::try_new` accepts columns of one length that take their cells, and refuses
others with an error. -/
theorem tryNew_yields {schema : Schema} (hne : schema ≠ []) {columns : List Arr} {count : Nat}
    (hlen : columns.length = schema.length) (hcount : ∀ c ∈ columns, c.cells.length = count)
    (hnull : List.Forall₂ (fun f c => c.isNullArray = f.dataType.isNullType) schema columns) :
    Yields ((batchError (rt.arrays.tryNewBatch schema columns)).map RecordBatch.cells)
      (if (schema.zip (columns.map Arr.cells)).all fun fc => fc.2.all (columnTakes fc.1) then
        some (columns.map Arr.cells) else none) := by
  have hsome : columns ≠ [] := fun h => hne (List.length_eq_zero_iff.1 (by rw [← hlen, h]; rfl))
  have hrows : rowsOf columns = count := rowsOf_eq hsome hcount
  -- A null array counts no nulls, so it passes under any field.
  have hcheck (fc : Field DataType × Arr) (hfc : fc ∈ schema.zip columns) :
      (fc.1.nullable = true ∨ fc.2.nullCount = 0) ↔ fc.2.cells.all (columnTakes fc.1) = true := by
    have hnulls : fc.2.nullCount = 0 ↔ (fc.2.nullCount != 0) = false := by simp
    rw [hnulls, Arr.nullCount_eq, List.forall₂_zip hnull hfc]
    cases hnullable : fc.1.nullable <;> cases hnullType : fc.1.dataType.isNullType <;>
      simp [columnTakes, hnullable, hnullType]
  have hall : ((schema.zip (columns.map Arr.cells)).all fun fc =>
        fc.2.all (columnTakes fc.1)) =
      (schema.zip columns).all fun fc => fc.2.cells.all (columnTakes fc.1) := by
    rw [List.zip_map_right, List.all_map]
    rfl
  have htaken : BatchTaken schema columns ↔
      ((schema.zip columns).all fun fc => fc.2.cells.all (columnTakes fc.1)) = true := by
    rw [BatchTaken, List.all_eq_true, hrows]
    exact ⟨fun h fc hfc => (hcheck fc hfc).1 (h.2.2.2 fc hfc),
      fun h => ⟨hsome, hlen.symm, hcount, fun fc hfc => (hcheck fc hfc).2 (h fc hfc)⟩⟩
  have hmakes := rt.arrays.batch_makes schema columns
  rw [hall]
  by_cases hgood : ((schema.zip columns).all fun fc => fc.2.cells.all (columnTakes fc.1)) = true
  · rw [hmakes.ok (htaken.2 hgood), if_pos hgood]
    exact .ok _
  · obtain ⟨e, he⟩ := hmakes.refused fun h => hgood (htaken.1 h)
    rw [he, if_neg hgood]
    exact ⟨_, rfl, rfl⟩

/-- A batch builds exactly when every column converts row by row, and its columns
hold the cells of the rows. -/
theorem buildBatch_yields (rt : Runtime) {target : Target} {rows : List Value}
    (hfits : RowsFit rt target shape rows) :
    Yields ((buildBatch rt target.schema shape rows).map RecordBatch.cells)
      (target.schema.zipIdx.mapM fun column => rows.mapM (cellAt rt shape column)) := by
  have hcolumns := Computes.mapM_map Arr.cells fun column hcolumn =>
    buildColumn_project_yields rt hfits hcolumn
  have hspec : (target.schema.zipIdx.mapM fun column => rows.mapM (cellAt rt shape column)) =
      (target.schema.zipIdx.mapM fun column => rows.mapM fun row =>
        rowCell rt column.1.dataType (project shape column.1.name column.2 row)).filter
          fun columns => (target.schema.zip columns).all fun fc => fc.2.all (columnTakes fc.1) := by
    have hcolumn (column : Field DataType × Nat) : rows.mapM (cellAt rt shape column) =
        (rows.mapM fun row => rowCell rt column.1.dataType
          (project shape column.1.name column.2 row)).filter
            fun cells => cells.all (columnTakes column.1) :=
      Traverse.mapM_filter (columnTakes column.1) rows
    simp only [hcolumn]
    rw [Traverse.mapM_filter_with fun (column : Field DataType × Nat) (cells : List Cell) =>
      cells.all (columnTakes column.1)]
    congr 1
    funext columns
    conv_rhs => rw [← List.zipIdx_map_fst 0 target.schema, List.zip_map_left, List.all_map]
    rfl
  rw [hspec, buildBatch]
  rcases hcolumns.of_map with ⟨columns, hbuild, hcells⟩ | ⟨e, hbuild, hrpc, hcells⟩
  · have hbuilt : List.Forall₂ (fun (column : Field DataType × Nat) a =>
        a.isNullArray = column.1.dataType.isNullType) target.schema.zipIdx columns := by
      exact (Traverse.forall₂_of_mapM_ok hbuild).imp fun column a ha =>
        buildColumn_isNullArray ha
    have hnull : List.Forall₂ (fun (f : Field DataType) (a : Arr) =>
        a.isNullArray = f.dataType.isNullType) target.schema columns := by
      rw [← List.zipIdx_map_fst 0 target.schema, List.forall₂_map_left_iff]
      exact hbuilt
    have hcount : ∀ c ∈ columns, c.cells.length = rows.length := by
      intro c hc
      obtain ⟨column, -, hcolumn⟩ :=
        Traverse.exists_of_mem_mapM hcells (List.mem_map_of_mem hc)
      exact Traverse.length_of_mapM hcolumn
    rw [hbuild, hcells, Option.filter_some]
    exact tryNew_yields target.nonempty hnull.length_eq.symm hcount hnull
  · rw [hbuild, hcells]
    exact ⟨e, rfl, hrpc⟩

/-! ## Row independence -/

theorem RowsFit.sublist {target : Target} {rows rows' : List Value}
    (hfits : RowsFit rt target shape rows) (h : rows'.Sublist rows) :
    RowsFit rt target shape rows' :=
  fun column hcolumn => fits_sublist _ (h.map _) (hfits column hcolumn)

theorem RowsFit.single {target : Target} {rows : List Value}
    (hfits : RowsFit rt target shape rows) {row : Value} (h : row ∈ rows) :
    RowsFit rt target shape [row] :=
  hfits.sublist (List.singleton_sublist.2 h)

/-- The cells of a batch of one row: one cell in each column, those of the row semantics. -/
theorem buildBatch_single_yields (rt : Runtime) {target : Target} {row : Value}
    (hfits : RowsFit rt target shape [row]) :
    Yields ((buildBatch rt target.schema shape [row]).map RecordBatch.cells)
      ((rowCells rt target shape row).map fun cells => cells.map fun c => [c]) := by
  have hsingle (column : Field DataType × Nat) : [row].mapM (cellAt rt shape column) =
      (cellAt rt shape column row).map fun c => [c] := by
    cases h : cellAt rt shape column row <;> simp [h]
  have hyields := buildBatch_yields rt hfits
  simp only [hsingle] at hyields
  rwa [Traverse.mapM_map_result] at hyields

theorem buildBatch_numRows {schema : Schema} {rows : List Value} {batch : RecordBatch}
    (h : buildBatch rt schema shape rows = .ok batch) :
    batch.cells ≠ [] ∧ ∀ cells ∈ batch.cells, cells.length = batch.numRows := by
  obtain ⟨columns, -, hbatch⟩ := ok_of_bind h
  unfold batchError at hbatch
  split at hbatch
  next b hb =>
    cases hbatch
    exact tryNewBatch_numRows _ hb
  · cases hbatch

/-- The rows of a batch are the cells its rows convert to.  Nothing is lost, repeated or
reordered between them. -/
theorem buildBatch_rows {target : Target} {rows : List Value}
    (hfits : RowsFit rt target shape rows) {batch : RecordBatch}
    (h : buildBatch rt target.schema shape rows = .ok batch) :
    rows.mapM (rowCells rt target shape) = some batch.rows := by
  have hcells := (buildBatch_yields rt hfits).toOption.symm
  rw [h, Except.map, Traverse.toOption_ok] at hcells
  obtain ⟨hne, hlens⟩ := buildBatch_numRows h
  have hcount : batch.numRows = rows.length := by
    obtain ⟨cells, hmem⟩ := List.exists_mem_of_ne_nil _ hne
    obtain ⟨column, -, hcolumn⟩ := Traverse.exists_of_mem_mapM hcells hmem
    rw [← hlens cells hmem, Traverse.length_of_mapM hcolumn]
  have hrows := Segments.mapM_toRows (fun column row => cellAt rt shape column row)
    target.schema.zipIdx rows
  rw [hcells, Option.map_some, ← hcount] at hrows
  exact hrows

/-- The cells of a row that builds a batch of its own; none for a row that does not. -/
def rowOf (rt : Runtime) (schema : Schema) (shape : RowShape) (row : Value) :
    Option (List Cell) :=
  (buildBatch rt schema shape [row]).toOption.bind fun batch => batch.rows.head?

theorem rowOf_eq {target : Target} {row : Value} (hfits : RowsFit rt target shape [row]) :
    rowOf rt target.schema shape row = rowCells rt target shape row := by
  unfold rowOf
  rcases (buildBatch_single_yields rt hfits).of_map with ⟨b, hb, h⟩ | ⟨e, hb, -, h⟩
  · have hrows := buildBatch_rows hfits hb
    obtain ⟨cells, rest, hcells, hnil, hb'⟩ := Traverse.mapM_cons_some.1 hrows
    rw [hb, hcells, Traverse.toOption_ok, Option.bind_some, hb']
    rfl
  · rw [hb, Option.map_eq_none_iff.1 h]
    rfl

theorem converts_iff (rt : Runtime) {target : Target} {row : Value} (hfits : RowsFit rt target shape [row]) :
    converts rt target.schema shape row = true ↔ (rowCells rt target shape row).isSome := by
  rcases (buildBatch_single_yields rt hfits).of_map with ⟨b, hb, h⟩ | ⟨e, hb, -, h⟩
  · simpa [converts, hb, Except.isOk, Except.toBool] using Option.isSome_of_eq_some h
  · simpa [converts, hb, Except.isOk, Except.toBool] using h

/-- A batch builds exactly when each of its rows does.  So a row that fails alone fails every
batch it is in. -/
theorem buildBatch_isOk_iff {target : Target} {rows : List Value}
    (hfits : RowsFit rt target shape rows) :
    (buildBatch rt target.schema shape rows).isOk = true ↔
      ∀ row ∈ rows, converts rt target.schema shape row = true := by
  have hspec : (buildBatch rt target.schema shape rows).isOk = true ↔
      (target.schema.zipIdx.mapM fun column =>
        rows.mapM (cellAt rt shape column)).isSome := by
    rcases (buildBatch_yields rt hfits).of_map with ⟨b, hb, h⟩ | ⟨e, hb, -, h⟩ <;>
      simp [hb, h, Except.isOk, Except.toBool]
  rw [hspec, Traverse.mapM_isSome_iff]
  constructor
  · intro h row hrow
    rw [converts_iff rt (hfits.single hrow), rowCells, Traverse.mapM_isSome_iff]
    exact fun column hcolumn => Traverse.mapM_isSome_iff.1 (h column hcolumn) row hrow
  · intro h column hcolumn
    rw [Traverse.mapM_isSome_iff]
    intro row hrow
    have hrowCells := (converts_iff rt (hfits.single hrow)).1 (h row hrow)
    exact Traverse.mapM_isSome_iff.1 hrowCells column hcolumn

/-- The rows of a batch are those its rows build alone. -/
theorem buildBatch_rowOf {target : Target} {rows : List Value}
    (hfits : RowsFit rt target shape rows) {batch : RecordBatch}
    (h : buildBatch rt target.schema shape rows = .ok batch) :
    rows.map (rowOf rt target.schema shape) = batch.rows.map some ∧
      ∀ row ∈ rows, converts rt target.schema shape row = true := by
  constructor
  · rw [← Traverse.map_of_mapM (buildBatch_rows hfits h)]
    exact List.map_congr_left fun row hrow => rowOf_eq (hfits.single hrow)
  · exact (buildBatch_isOk_iff hfits).1 (by rw [h]; rfl)

/-- Batches stacked on each other: each column is the concatenation of the columns at its
place. -/
def stacked (width : Nat) (batches : List RecordBatch) : List (List Cell) :=
  (List.range width).map fun j => batches.flatMap fun b => b.cells[j]?.getD []

/-- The cells of one column, read from the batches of the single rows. -/
theorem flatMap_singles {column : Field DataType × Nat} {j : Nat} {rows : List Value}
    {singles : List RecordBatch} {cells : List Cell}
    (hsingles : List.Forall₂ (fun row (b : RecordBatch) =>
      b.cells[j]? = (cellAt rt shape column row).map fun c => [c]) rows singles)
    (hcells : rows.mapM (cellAt rt shape column) = some cells) :
    (singles.flatMap fun b => b.cells[j]?.getD []) = cells := by
  induction hsingles generalizing cells with
  | nil => simpa using hcells.symm
  | @cons row b rows singles hb _ ih =>
      obtain ⟨c, cs, hc, hcs, rfl⟩ := Traverse.mapM_cons_some.1 hcells
      rw [List.flatMap_cons, ih hcs, hb, hc]
      rfl

/-- A batch is its single rows stacked on each other. -/
theorem buildBatch_stacked {target : Target} {rows : List Value}
    (hfits : RowsFit rt target shape rows) {batch : RecordBatch}
    (hbatch : buildBatch rt target.schema shape rows = .ok batch) :
    ∃ singles, (rows.mapM fun row => buildBatch rt target.schema shape [row]) = .ok singles ∧
      batch.cells = stacked target.schema.length singles := by
  have hok : ∀ row ∈ rows, ∃ b, buildBatch rt target.schema shape [row] = .ok b := by
    intro row hrow
    have hconverts := (buildBatch_isOk_iff hfits).1 (by rw [hbatch]; rfl) row hrow
    unfold converts at hconverts
    cases hb : buildBatch rt target.schema shape [row] with
    | ok b => exact ⟨b, rfl⟩
    | error e => rw [hb] at hconverts; cases hconverts
  obtain ⟨singles, hsingles, hforall⟩ := Traverse.exists_ok_of_mapM hok
  refine ⟨singles, hsingles, ?_⟩
  have hcells := (buildBatch_yields rt hfits).toOption.symm
  rw [hbatch, Except.map, Traverse.toOption_ok] at hcells
  have hwidth : batch.cells.length = target.schema.length := by
    rw [Traverse.length_of_mapM hcells, List.length_zipIdx]
  apply List.ext_getElem?
  intro j
  by_cases hj : j < target.schema.length
  · -- Column `j` of the batch is the one cell of column `j` of every single batch.
    have hcolumn : target.schema.zipIdx[j]? = some (target.schema[j], j) := by
      simp [List.getElem?_eq_getElem hj]
    have hread := Traverse.getElem?_of_mapM hcells j
    rw [hcolumn, Option.bind_some, List.getElem?_eq_getElem (by omega)] at hread
    have hrows : List.Forall₂ (fun row (b : RecordBatch) =>
        b.cells[j]? = (cellAt rt shape (target.schema[j], j) row).map fun c => [c])
          rows singles := by
      rw [List.forall₂_iff_zip]
      refine ⟨hforall.length_eq, fun {row b} hmem => ?_⟩
      have hsingle := (buildBatch_single_yields rt
        (hfits.single (List.of_mem_zip hmem).1)).toOption
      rw [List.forall₂_zip hforall hmem, Except.map, Traverse.toOption_ok] at hsingle
      obtain ⟨cells, hrow, hb⟩ := Option.map_eq_some_iff.1 hsingle.symm
      rw [← hb, List.getElem?_map, Traverse.getElem?_of_mapM hrow, hcolumn, Option.bind_some]
    rw [List.getElem?_eq_getElem (by omega), stacked, List.getElem?_map,
      List.getElem?_range hj, Option.map_some, flatMap_singles hrows hread.symm]
  · rw [List.getElem?_eq_none (by omega), List.getElem?_eq_none (by simpa [stacked] using hj)]

/-- Rows that fit fail with an error only.  Without the bound the builders of the source
panic, which no caller can turn into an error. -/
theorem isRpc_of_buildBatch {target : Target} {rows : List Value}
    (hfits : RowsFit rt target shape rows) {e : Fault}
    (h : buildBatch rt target.schema shape rows = .error e) : e.isRpc = true :=
  (buildBatch_yields rt hfits).benign_of_error (by rw [h]; rfl)

theorem keptRows_eq {target : Target} {rows : List Value}
    (hfits : ∀ row ∈ rows, RowsFit rt target shape [row]) :
    keptRows rt target.schema shape rows =
      .ok (rows.filter (converts rt target.schema shape)) := by
  induction rows with
  | nil => rfl
  | cons row rows ih =>
      have hrest := ih fun row' hrow' => hfits row' (List.mem_cons_of_mem _ hrow')
      rw [keptRows, List.filter_cons, hrest]
      cases hb : buildBatch rt target.schema shape [row] with
      | ok batch =>
          have hkeep : converts rt target.schema shape row = true := by
            rw [converts, hb]
            rfl
          rw [if_pos hkeep]
          rfl
      | error e =>
          have hdrop : ¬ converts rt target.schema shape row = true := by
            rw [converts, hb]
            exact Bool.false_ne_true
          rw [if_neg hdrop]
          exact if_pos (isRpc_of_buildBatch (hfits row List.mem_cons_self) hb)

/-- The retry keeps the rows that convert alone, and cannot fail: whether a row converts does
not depend on the rows around it. -/
theorem convertRows_ignoreErrors (rt : Runtime) {target : Target} {rows : List Value}
    (hfits : RowsFit rt target shape rows) :
    convertRows rt target.schema shape true rows =
      buildBatch rt target.schema shape (rows.filter (converts rt target.schema shape)) ∧
    (convertRows rt target.schema shape true rows).isOk = true := by
  have hkept : (buildBatch rt target.schema shape
      (rows.filter (converts rt target.schema shape))).isOk = true := by
    rw [buildBatch_isOk_iff (hfits.sublist List.filter_sublist)]
    exact fun row hrow => (List.mem_filter.1 hrow).2
  unfold convertRows
  cases hb : buildBatch rt target.schema shape rows with
  | error e =>
      have hretry : (true && e.isRpc) = true := isRpc_of_buildBatch hfits hb
      simp only [hretry, if_true, keptRows_eq fun row hrow => hfits.single hrow]
      exact ⟨rfl, hkept⟩
  | ok batch =>
      have hall := (buildBatch_isOk_iff hfits).1 (by rw [hb]; rfl)
      rw [List.filter_eq_self.2 hall, hb]
      exact ⟨rfl, rfl⟩

/-- Rows do not influence each other.  A batch builds exactly when each of its rows
builds alone; its columns are those of its rows, one after the other; and the retry
under `ignore_errors` builds, from exactly the rows that convert alone. -/
theorem batch_rows_independent (rt : Runtime) (target : Target) (shape : RowShape)
    (rows : List Value) (hfits : RowsFit rt target shape rows) :
    ((buildBatch rt target.schema shape rows).isOk = true ↔
      ∀ row ∈ rows, (buildBatch rt target.schema shape [row]).isOk = true) ∧
    (∀ batch, buildBatch rt target.schema shape rows = .ok batch →
      ∃ singles, (rows.mapM fun row => buildBatch rt target.schema shape [row]) = .ok singles ∧
        batch.cells = stacked target.schema.length singles) ∧
    (∃ batch singles, convertRows rt target.schema shape true rows = .ok batch ∧
      ((rows.filter fun row => (buildBatch rt target.schema shape [row]).isOk).mapM fun row =>
        buildBatch rt target.schema shape [row]) = .ok singles ∧
      batch.cells = stacked target.schema.length singles) := by
  refine ⟨buildBatch_isOk_iff hfits, fun batch hb => buildBatch_stacked hfits hb, ?_⟩
  obtain ⟨hretry, hok⟩ := convertRows_ignoreErrors rt hfits
  cases hb : convertRows rt target.schema shape true rows with
  | error e => rw [hb] at hok; cases hok
  | ok batch =>
      obtain ⟨singles, hsingles, hcells⟩ :=
        buildBatch_stacked (hfits.sublist List.filter_sublist) (hretry.symm.trans hb)
      exact ⟨batch, singles, rfl, hsingles, hcells⟩

def tagsTarget : Target where
  schema := [⟨"tags", .list ⟨"item", .int .uint8, false⟩, true⟩]
  nonempty := by simp
  supported := rfl

/-- A list, a null, and a text in the place of a list. -/
def tagsRows : List Value :=
  [.map [(.text "tags", .array [.integer ⟨1, by decide, by decide⟩])], .map [],
    .map [(.text "tags", .text "none")]]

theorem tagsRows_fit : RowsFit .bare tagsTarget .map tagsRows := by
  unfold RowsFit
  decide

theorem batch_rows_independent_tags :
    ((buildBatch .bare tagsTarget.schema .map tagsRows).isOk = true ↔
      ∀ row ∈ tagsRows, (buildBatch .bare tagsTarget.schema .map [row]).isOk = true) ∧
    (buildBatch .bare tagsTarget.schema .map tagsRows).isOk = false ∧
    ∃ batch singles, convertRows .bare tagsTarget.schema .map true tagsRows = .ok batch ∧
      ((tagsRows.filter fun row => (buildBatch .bare tagsTarget.schema .map [row]).isOk).mapM
        fun row => buildBatch .bare tagsTarget.schema .map [row]) = .ok singles ∧
      batch.cells = stacked tagsTarget.schema.length singles := by
  obtain ⟨hiff, -, hretry⟩ := batch_rows_independent .bare tagsTarget .map tagsRows tagsRows_fit
  refine ⟨hiff, ?_, hretry⟩
  decide

def dataTarget : Target where
  schema := [⟨"data", .binary, true⟩]
  nonempty := by simp
  supported := rfl

def dataRow (data : Bytes) : Value := .map [(.text "data", .bytes data)]

/-- Blobs are appended one after the other, and nothing but their bytes counts. -/
theorem buildBatch_blobs (blobs : List Bytes) :
    buildBatch .bare dataTarget.schema .map (blobs.map dataRow) =
      (appendAll .binary (fun b => .ok (.bytes b)) blobs).bind fun cells =>
        batchError (Runtime.bare.arrays.tryNewBatch dataTarget.schema [.leaf cells]) := by
  have hproject : (blobs.map dataRow).map (project .map "data" 0) = blobs.map Value.bytes :=
    List.map_map
  have hcolumn : buildColumn .bare .binary "data" (blobs.map Value.bytes) =
      (appendAll .binary (fun b => .ok (.bytes b)) blobs).map .leaf := by
    have hloop : appendAll .binary (nullable fun v => (bytesOf "data" v).map Cell.bytes)
        (blobs.map Value.bytes) = appendAll .binary (fun b => .ok (.bytes b)) blobs :=
      spend_map Value.bytes 0 blobs
    simp only [buildColumn, leafAt, hloop]
    cases appendAll .binary (fun b => .ok (.bytes b)) blobs <;> rfl
  simp only [buildBatch, dataTarget, List.zipIdx_cons, List.zipIdx_nil, List.mapM_cons,
    List.mapM_nil, hproject, hcolumn]
  cases appendAll .binary (fun b => .ok (.bytes b)) blobs <;> rfl

/-- A blob of one gibibyte builds a batch, and two of them do not. -/
theorem gibibytes_overflow {b : Bytes} (hlen : b.length = 0x40000000) :
    (buildBatch .bare dataTarget.schema .map [dataRow b]).isOk = true ∧
      buildBatch .bare dataTarget.schema .map [dataRow b, dataRow b] =
        .error (.panic "byte array offset overflow") := by
  have hsize : Cell.byteSize (.bytes b) = 0x40000000 := hlen
  have hfirst : Within DataType.binary.maxOffset (0 + Cell.byteSize (.bytes b)) := by
    rw [hsize]
    decide
  have hsecond : ¬ Within DataType.binary.maxOffset
      (0 + Cell.byteSize (.bytes b) + Cell.byteSize (.bytes b)) := by
    rw [hsize]
    decide
  clear hlen hsize
  let blob (b : Bytes) : Except Fault Cell := .ok (.bytes b)
  constructor
  · have hone := buildBatch_blobs [b]
    rw [appendAll, spend_cons (f := blob) (x := b) rfl hfirst] at hone
    exact congrArg Except.isOk hone
  · have htwo := buildBatch_blobs [b, b]
    rw [appendAll, spend_cons (f := blob) (x := b) rfl hfirst,
      spend_exceeded (f := blob) (x := b) rfl hsecond] at htwo
    exact htwo

/-- Rows that build alone can be too many bytes for one batch: two blobs of one gibibyte
end the conversion in a panic, whether errors are ignored or not. -/
theorem blobs_build_alone_only :
    ¬ ((buildBatch .bare dataTarget.schema .map
          [dataRow (List.replicate 0x40000000 0), dataRow (List.replicate 0x40000000 0)]).isOk =
          true ↔
        ∀ row ∈ [dataRow (List.replicate 0x40000000 0), dataRow (List.replicate 0x40000000 0)],
          (buildBatch .bare dataTarget.schema .map [row]).isOk = true) ∧
      (convertRows .bare dataTarget.schema .map true
        [dataRow (List.replicate 0x40000000 0), dataRow (List.replicate 0x40000000 0)]).isOk =
          false := by
  generalize hb : List.replicate 0x40000000 (0 : UInt8) = b
  have hlen : b.length = 0x40000000 := by rw [← hb, List.length_replicate]
  obtain ⟨hone, htwo⟩ := gibibytes_overflow hlen
  clear hb hlen
  constructor
  · rw [htwo]
    intro hiff
    cases hiff.2 (by simpa using hone)
  · rw [convertRows, htwo]
    rfl

end Copy

end VgiCbor
