import VgiCbor.Security.CoseKey
import VgiCbor.Security.Cose
import VgiCbor.Worker.ColumnRefinement

/-!
# Input cells and column builders

The functions of the worker read BLOB and VARCHAR cells, and build their results column by
column: struct columns from the columns of their fields, list columns from the flattened
items.  As long as the cells of all rows stay within the offsets of the column (`cellsFit`),
it is built and holds one cell for each row, which depends on that row alone; beyond the
offsets a builder panics.
-/

namespace VgiCbor.ArrowIo

open MachineInt ArrayLibrary

/-! ## Input cells -/

/-- `col.is_null(row)`: a null array keeps no mask, so none of its rows counts as null. -/
def isNull : DataType → Cell → Bool
  | .null, _ => false
  | _, cell => cell.isNull

/-- The raw bytes of a BLOB or VARCHAR cell, or `none` if it is null.  The null check comes
first, so a column of any type may hold nulls. -/
def blobBytes (rt : Runtime) (dt : DataType) (cell : Cell) : Except Fault (Option Bytes) :=
  if isNull dt cell then .ok none
  else
    match dt, cell with
    | .binary, .bytes b | .largeBinary, .bytes b => .ok (some b)
    | .utf8, .text s | .largeUtf8, .text s => .ok (some (utf8 s))
    | .binary, _ | .largeBinary, _ | .utf8, _ | .largeUtf8, _ => .error (.panic "array downcast")
    | other, _ =>
        let got := rt.arrays.dataTypeText other
        .error (.valueError s!"expected a BLOB or VARCHAR argument, got {got}")

/-! ## Columns of scalars -/

variable {α : Type}

/-- The cell of an optional value. -/
def optCell (cell : α → Cell) : Option α → Cell
  | some a => cell a
  | none => .null

theorem optCell_map {β : Type} (cell : β → Cell) (f : α → β) (a : Option α) :
    optCell cell (a.map f) = optCell (fun a => cell (f a)) a := by
  cases a <;> rfl

theorem optCell_join (cell : α → Cell) (a : Option (Option α)) :
    optCell cell a.join = optCell (optCell cell) a := by
  rcases a with _ | _ | a <;> rfl

/-- A builder that appends a value or a null for each row.  It panics when the bytes of a text
or blob column leave the range of its offsets. -/
def optArray (dt : DataType) (cell : α → Cell) (col : List (Option α)) : Except Fault Arr :=
  (appendAll dt (fun a => .ok (optCell cell a)) col).map .leaf

def u64Cell (n : UInt64) : Cell :=
  .int ⟨n.toNat, by omega, by have := n.toNat_lt; omega⟩

def u32Cell (n : U32) : Cell :=
  .int ⟨n.val, by have := n.ge; omega, by have := n.lt; omega⟩

/-- A timestamp in microseconds: `secs.saturating_mul(1_000_000)`.  Claims far out of range
become the ends of the range. -/
def tsCell (secs : I64) : Cell := .int (Integer.ofI64 (I64.saturate (secs.val * 1000000)))

def stringArray : List (Option String) → Except Fault Arr := optArray .utf8 .text

def binaryArray : List (Option Bytes) → Except Fault Arr := optArray .binary .bytes

def boolOptArray : List (Option Bool) → Except Fault Arr := optArray .boolean .bool

def tsArray : List (Option I64) → Except Fault Arr :=
  optArray (.timestamp .microsecond (some "UTC")) tsCell

def u64OptArray : List (Option UInt64) → Except Fault Arr := optArray (.int .uint64) u64Cell

def u32OptArray : List (Option U32) → Except Fault Arr := optArray (.int .uint32) u32Cell

/-! ## Nested columns -/

/-- A constructor that panics where the fallible one refuses. -/
def orPanic : Except String Arr → Except Fault Arr
  | .ok a => .ok a
  | .error e => .error (.panic e)

def newStruct (rt : Runtime) (fields : List (Field DataType)) (columns : List Arr)
    (nulls : NullBuffer) : Except Fault Arr :=
  orPanic (rt.arrays.tryNewStruct fields columns nulls)

/-- The items of all rows with their running totals, as the loop over the rows collects them.
The totals are added in 32 bits. -/
structure ListBuilder (α : Type) where
  flat : List α
  offsets : List I32
  valid : List Bool
  total : I32

/-- A builder without rows. -/
def ListBuilder.new : ListBuilder α := ⟨[], [I32.wrap 0], [], I32.wrap 0⟩

/-- One more row.  A null row repeats the last offset, so it has no items. -/
def ListBuilder.push (b : ListBuilder α) : Option (List α) → ListBuilder α
  | some items =>
      let total := I32.wrap (b.total.val + (I32.wrap items.length).val)
      ⟨b.flat ++ items, b.offsets ++ [total], b.valid ++ [true], total⟩
  | none => ⟨b.flat, b.offsets ++ [b.total], b.valid ++ [false], b.total⟩

/-- The loop over the rows. -/
def ListBuilder.ofRows (rows : List (Option (List α))) : ListBuilder α :=
  rows.foldl ListBuilder.push .new

/-- `ListArray::new` over the items that were collected.  Totals that have wrapped around
panic here, as offsets out of order. -/
def newList (rt : Runtime) (field : Field DataType) (b : ListBuilder α) (child : Arr) :
    Except Fault Arr :=
  (rt.arrays.offsetBuffer b.offsets).bind fun offsets =>
    orPanic (rt.arrays.tryNewList field offsets child (some b.valid))

def listBinaryArray (rt : Runtime) (col : List (Option (List Bytes))) : Except Fault Arr :=
  let b := ListBuilder.ofRows col
  (binaryArray (b.flat.map some)).bind (newList rt ⟨"item", .binary, true⟩ b)

/-- `vec![..]` of columns, built in this order.  The first that panics ends the call. -/
def columnsOf (columns : List (Except Fault Arr)) : Except Fault (List Arr) := columns.mapM id

/-! ## Cells within the offsets -/

/-- The fields of a struct; a null has none. -/
def structFields : Cell → List Cell
  | .struct cells => cells
  | _ => []

/-- The items of a list; a null has none. -/
def listItems : Cell → List Cell
  | .list items => items
  | _ => []

mutual

/-- The cells of a result column stay within its offsets: the items of a list number less than
2^31 in all rows together, and so do the bytes of a text or blob, at every depth. -/
def cellsFit : DataType → List Cell → Bool
  | .list ⟨_, child, _⟩, cells =>
      decide ((cells.flatMap listItems).length < 0x80000000) &&
        cellsFit child (cells.flatMap listItems)
  | .struct fields, cells => fieldsFit fields (cells.map structFields)
  | dt, cells => decide (Outcome.Within dt.maxOffset (cells.map Cell.byteSize).sum)

/-- `cellsFit` for every field of the rows; a missing field counts as null. -/
def fieldsFit : List (Field DataType) → List (List Cell) → Bool
  | [], _ => true
  | ⟨_, dt, _⟩ :: fields, rows =>
      cellsFit dt (rows.map fun row => row.headD .null) && fieldsFit fields (rows.map List.tail)

end

/-- If its cells fit, the column is built, and it holds them.  This is what every builder
below is proved to do. -/
def Yields (column : Except Fault Arr) (dt : DataType) (cells : List Cell) : Prop :=
  cellsFit dt cells = true → column.map Arr.cells = .ok cells

theorem Yields.exists_ok {column : Except Fault Arr} {dt : DataType} {cells : List Cell}
    (h : Yields column dt cells) (hfit : cellsFit dt cells = true) :
    ∃ a, column = .ok a ∧ a.cells = cells :=
  Traverse.ok_of_map (h hfit)

theorem Yields.of_eq {column : Arr} {dt : DataType} {cells : List Cell} (h : column.cells = cells) :
    Yields (.ok column) dt cells :=
  fun _ => congrArg Except.ok h

/-- The cells of rows that are read as values first. -/
theorem Yields.of_map {ρ : Type} {column : Except Fault Arr} {dt : DataType} {value : ρ → α}
    {cell : α → Cell} {rows : List ρ} (h : Yields column dt ((rows.map value).map cell)) :
    Yields column dt (rows.map fun row => cell (value row)) := by
  rwa [List.map_map] at h

theorem cellsFit_scalar {dt : DataType} (hscalar : dt.isNested = false) (cells : List Cell) :
    cellsFit dt cells = decide (Outcome.Within dt.maxOffset (cells.map Cell.byteSize).sum) := by
  cases dt <;> first
    | cases hscalar; done
    | simp only [cellsFit]

/-- A column of values that may be missing holds a cell for each of them. -/
theorem optArray_yields {ρ : Type} {dt : DataType} (hscalar : dt.isNested = false)
    (cell : α → Cell) (value : ρ → Option α) (rows : List ρ) :
    Yields (optArray dt cell (rows.map value)) dt (rows.map fun row => optCell cell (value row)) := by
  intro hfit
  rw [cellsFit_scalar hscalar, decide_eq_true_eq, List.map_map] at hfit
  have hloop : Outcome.Computes (fun _ => True)
      (appendAll dt (fun a => .ok (optCell cell a)) (rows.map value))
      ((rows.map value).mapM fun a => some (optCell cell a)) := by
    apply Outcome.Computes.spend fun a _ => .ok _
    rw [Nat.zero_add, Outcome.specSize, List.map_map]
    exact hfit
  rw [Traverse.mapM_some_map, List.map_map] at hloop
  rw [optArray, hloop.ok_iff.2 rfl]
  change Except.ok (Arr.cells (.leaf _)) = _
  rw [Arr.cells]
  rfl

theorem optArray_yields_self {dt : DataType} (hscalar : dt.isNested = false) (cell : α → Cell)
    (col : List (Option α)) : Yields (optArray dt cell col) dt (col.map (optCell cell)) := by
  have hyields := optArray_yields hscalar cell id col
  rwa [List.map_id] at hyields

/-- The column of the results of a loop over the rows, which a row that fails ends.  The
column is built when the loop is through, so a failed row comes first. -/
theorem loop_yields {ρ β : Type} {dt : DataType} {step : ρ → Except Fault β} {cell : β → Cell}
    {column : List β → Except Fault Arr} (hcolumn : ∀ out, Yields (column out) dt (out.map cell))
    {rows : List ρ} (hfits : ∀ cells, (rows.mapM fun row => (step row).map cell) = .ok cells →
      cellsFit dt cells = true) :
    ((rows.mapM step).bind column).map Arr.cells = rows.mapM fun row => (step row).map cell := by
  rw [Traverse.mapM_map_ok] at hfits ⊢
  cases hloop : rows.mapM step with
  | error e => rfl
  | ok out =>
      rw [hloop] at hfits
      exact hcolumn out (hfits _ rfl)

/-! ## Struct columns hold one struct for each row -/

section Rows

variable {rt : Runtime} {ρ : Type}

/-- Columns whose cells are computed from the rows, field by field. -/
def Columns (rows : List ρ) (columns : List Arr) (cells : List (ρ → Cell)) : Prop :=
  List.Forall₂ (fun column cell => column.cells = rows.map cell) columns cells

theorem Columns.columnCells {rows : List ρ} {columns : List Arr} {cells : List (ρ → Cell)}
    (h : Columns rows columns cells) :
    Arr.columnCells columns = cells.map fun cell => rows.map cell := by
  rw [Arr.columnCells_eq_map]
  induction h with
  | nil => rfl
  | cons hcolumn _ ih => rw [List.map_cons, List.map_cons, hcolumn, ih]

theorem Columns.len_eq {rows : List ρ} {columns : List Arr} {cells : List (ρ → Cell)}
    (h : Columns rows columns cells) : ∀ c ∈ columns, c.len = rows.length := by
  induction h with
  | nil => simp
  | @cons column cell columns cells hcolumn _ ih =>
      rw [List.forall_mem_cons]
      exact ⟨by rw [Arr.len, hcolumn, List.length_map], ih⟩

/-- A field that is not nullable has a cell for every row. -/
def Admitted (rows : List ρ) (fields : List (Field DataType)) (cells : List (ρ → Cell)) : Prop :=
  List.Forall₂ (fun field cell => field.nullable = false → ∀ row ∈ rows, (cell row).isNull = false)
    fields cells

/-- Columns that yield the cells of their fields are built, one after the other, if the fields
fit. -/
theorem columnsOf_cells {rows : List ρ} {fields : List (Field DataType)}
    {columns : List (Except Fault Arr)} {cells : List (ρ → Cell)}
    (hyields : List.Forall₂ (fun column fc => Yields column fc.1.dataType (rows.map fc.2))
      columns (fields.zip cells))
    (hfits : List.Forall₂ (fun field cell => cellsFit field.dataType (rows.map cell) = true)
      fields cells) :
    ∃ built, columnsOf columns = .ok built ∧ Columns rows built cells := by
  induction hfits generalizing columns with
  | nil =>
      cases hyields
      exact ⟨[], rfl, .nil⟩
  | @cons field cell fields cells hfit _ ih =>
      cases hyields with
      | @cons column _ columns _ hcolumn hcolumns =>
          obtain ⟨a, rfl, ha⟩ := hcolumn.exists_ok hfit
          obtain ⟨built, hbuilt, hcells⟩ := ih hcolumns
          refine ⟨a :: built, ?_, .cons ha hcells⟩
          rw [columnsOf] at hbuilt ⊢
          rw [List.mapM_cons, hbuilt]
          rfl

/-- The fields of rows that are structs of the cells, or have none of them, fit one by one. -/
theorem fieldsFit_forall {rows : List ρ} {values : ρ → List Cell} {fields : List (Field DataType)}
    {cells : List (ρ → Cell)} (hlen : fields.length = cells.length)
    (hvalues : ∀ row ∈ rows, values row = (cells.map fun cell => cell row) ∨
      values row = [] ∧ ∀ cell ∈ cells, cell row = .null)
    (hfit : fieldsFit fields (rows.map values) = true) :
    List.Forall₂ (fun field cell => cellsFit field.dataType (rows.map cell) = true)
      fields cells := by
  induction fields generalizing cells values with
  | nil =>
      rw [List.length_eq_zero_iff.1 hlen.symm]
      exact .nil
  | cons field fields ih =>
      obtain ⟨name, dt, nullable⟩ := field
      cases cells with
      | nil => cases hlen
      | cons cell cells =>
          rw [fieldsFit, Bool.and_eq_true, List.map_map, List.map_map] at hfit
          have hhead : rows.map ((fun row : List Cell => row.headD .null) ∘ values) =
              rows.map cell := by
            apply List.map_congr_left
            intro row hrow
            rcases hvalues row hrow with h | ⟨h, hnull⟩
            · rw [Function.comp_apply, h, List.map_cons, List.headD_cons]
            · rw [Function.comp_apply, h, hnull cell List.mem_cons_self]
              rfl
          refine .cons (hhead ▸ hfit.1) (ih (Nat.succ.inj hlen) (fun row hrow => ?_) hfit.2)
          rcases hvalues row hrow with h | ⟨h, hnull⟩
          · exact .inl (by rw [Function.comp_apply, h, List.map_cons, List.tail_cons])
          · exact .inr ⟨by rw [Function.comp_apply, h, List.tail_nil],
              fun c hc => hnull c (List.mem_cons_of_mem _ hc)⟩

/-- A field that is not nullable finds no null in its column.  Structs and batches check the
same. -/
theorem Columns.admitted {rows : List ρ} {columns : List Arr} {cells : List (ρ → Cell)}
    {fields : List (Field DataType)} (h : Columns rows columns cells)
    (hadmitted : Admitted rows fields cells) :
    ∀ fc ∈ fields.zip columns, fc.1.nullable = true ∨ ∀ c ∈ fc.2.cells, c.isNull = false := by
  induction hadmitted generalizing columns with
  | nil => simp
  | @cons field cell fields cells hfield _ ih =>
      cases h with
      | @cons column _ columns _ hcolumn hcolumns =>
          rw [List.zip_cons_cons, List.forall_mem_cons]
          refine ⟨?_, ih hcolumns⟩
          cases hnullable : field.nullable with
          | true => exact .inl rfl
          | false =>
              right
              rw [hcolumn, List.forall_mem_map]
              exact hfield hnullable

/-- A struct column is built from the columns of its fields, and holds one struct for each row;
where the mask says so, it is null. -/
theorem newStruct_cells {rows : List ρ} {columns : List Arr} {cells : List (ρ → Cell)}
    {fields : List (Field DataType)} (h : Columns rows columns cells)
    (hadmitted : Admitted rows fields cells) (hne : cells ≠ []) (valid : Option (ρ → Bool)) :
    newStruct rt fields columns (valid.map fun v => rows.map v) =
        .ok (.struct rows.length columns (valid.map fun v => rows.map v)) ∧
      (Arr.struct rows.length columns (valid.map fun v => rows.map v)).cells =
        rows.map fun row =>
          if valid.all (fun v => v row) then .struct (cells.map fun cell => cell row) else .null := by
  constructor
  · have hsome : columns ≠ [] := by
      rintro rfl
      exact hne (List.length_eq_zero_iff.1 h.length_eq.symm)
    have hrows := rowsOf_eq hsome h.len_eq
    have htaken : StructTaken fields columns (valid.map fun v => rows.map v) := by
      refine ⟨hsome, by rw [hadmitted.length_eq, h.length_eq], ?_, ?_, ?_⟩
      · rw [hrows]
        exact h.len_eq
      · rw [hrows]
        cases valid with
        | none => trivial
        | some v => exact List.length_map _
      · intro fc hfc
        exact (h.admitted hadmitted fc hfc).imp_right fun hnulls =>
          Arr.hasUnmaskedNulls_of_forall hnulls _
    rw [newStruct, (rt.arrays.struct_makes _ _ _).ok htaken, hrows]
    rfl
  · rw [Arr.cells, h.columnCells, Segments.toRows_map, List.map_map]
    cases valid with
    | none =>
        rw [Option.map_none, maskCells]
        rfl
    | some v =>
        rw [Option.map_some, maskCells, List.zipWith_map, List.zipWith_self]
        rfl

theorem Columns.of_map {σ : Type} {rows : List σ} {g : σ → ρ} {columns : List Arr}
    {cells : List (ρ → Cell)} (h : Columns (rows.map g) columns cells) :
    Columns rows columns (cells.map fun cell row => cell (g row)) := by
  rw [Columns, List.forall₂_map_right_iff]
  apply h.imp
  intro column cell hcolumn
  rw [hcolumn, List.map_map]
  rfl

/-- Nullable fields object to nothing, whatever the cells are. -/
theorem admitted_of_nullable (rows : List ρ) {fields : List (Field DataType)}
    {cells : List (ρ → Cell)} (hnullable : ∀ f ∈ fields, f.nullable = true)
    (hlen : fields.length = cells.length) : Admitted rows fields cells := by
  rw [Admitted, List.forall₂_iff_zip]
  refine ⟨hlen, fun hmem hfield => ?_⟩
  rw [hnullable _ (List.of_mem_zip hmem).1] at hfield
  cases hfield

/-- A struct column over rows, some of which may be missing: under the mask they are null, and
the others are structs of their fields' cells. -/
theorem newStruct_yields {rows : List ρ} {columns : List (Except Fault Arr)}
    {cells : List (ρ → Cell)} {fields : List (Field DataType)} {result : ρ → Cell}
    (valid : Option (ρ → Bool)) (hlen : fields.length = cells.length)
    (hyields : List.Forall₂ (fun column fc => Yields column fc.1.dataType (rows.map fc.2))
      columns (fields.zip cells))
    (hadmitted : Admitted rows fields cells) (hne : cells ≠ [])
    (hresult : ∀ row ∈ rows,
      valid.all (fun v => v row) = true ∧ result row = .struct (cells.map fun cell => cell row) ∨
        valid.all (fun v => v row) = false ∧ result row = .null ∧
          ∀ cell ∈ cells, cell row = .null) :
    Yields ((columnsOf columns).bind fun columns =>
        newStruct rt fields columns (valid.map fun v => rows.map v))
      (.struct fields) (rows.map result) := by
  intro hfit
  rw [cellsFit, List.map_map] at hfit
  have hfields := fieldsFit_forall hlen (fun row hrow => ?_) hfit
  · obtain ⟨built, hbuilt, hcolumns⟩ := columnsOf_cells hyields hfields
    obtain ⟨hstruct, hcells⟩ := @newStruct_cells rt _ _ _ _ _ hcolumns hadmitted hne valid
    rw [hbuilt]
    change (newStruct rt fields built _).map Arr.cells = _
    rw [hstruct]
    change Except.ok (Arr.cells _) = _
    rw [hcells]
    congr 1
    apply List.map_congr_left
    intro row hrow
    rcases hresult row hrow with ⟨hvalid, h⟩ | ⟨hvalid, h, -⟩
    · rw [if_pos hvalid, h]
    · rw [if_neg (by simp [hvalid]), h]
  · rcases hresult row hrow with ⟨-, h⟩ | ⟨-, h, hnull⟩
    · exact .inl (by rw [Function.comp_apply, h]; rfl)
    · exact .inr ⟨by rw [Function.comp_apply, h]; rfl, hnull⟩

/-- A struct column over optional rows. -/
theorem newStruct_opt {rows : List (Option ρ)} {columns : List (Except Fault Arr)}
    {cells : List (Option ρ → Cell)} {fields : List (Field DataType)} {cell : ρ → Cell}
    (hyields : List.Forall₂ (fun column fc => Yields column fc.1.dataType (rows.map fc.2))
      columns (fields.zip cells))
    (hnullable : ∀ f ∈ fields, f.nullable = true) (hlen : fields.length = cells.length)
    (hne : cells ≠ []) (hnone : ∀ cell ∈ cells, cell none = .null)
    (hcell : ∀ row, cell row = .struct (cells.map fun cell => cell (some row))) :
    Yields ((columnsOf columns).bind fun columns =>
        newStruct rt fields columns (some (rows.map fun row => row.isSome)))
      (.struct fields) (rows.map (optCell cell)) := by
  refine newStruct_yields (some fun row => row.isSome) hlen hyields
    (admitted_of_nullable _ hnullable hlen) hne fun row _ => ?_
  cases row with
  | none => exact .inr ⟨rfl, rfl, hnone⟩
  | some row => exact .inl ⟨rfl, hcell row⟩

end Rows

/-! ## List columns hold one list for each row -/

theorem wrap_add (m n : Int) :
    I32.wrap ((I32.wrap m).val + (I32.wrap n).val) = I32.wrap (m + n) := by
  apply Ranged.ext_val
  simp only [I32.wrap]
  omega

/-- The items of a row; a null row has none. -/
def itemsOf (row : Option (List α)) : List α := row.getD []

/-- The loop collects the items of all rows, their running totals and which rows are not
null. -/
theorem foldl_push (b : ListBuilder α) (htotal : b.total = I32.wrap b.flat.length)
    (rows : List (Option (List α))) :
    (rows.foldl ListBuilder.push b).flat = b.flat ++ (rows.map itemsOf).flatten ∧
      (rows.foldl ListBuilder.push b).offsets =
        b.offsets ++ (Segments.offsetsFrom b.flat.length
          (rows.map fun row => (itemsOf row).length)).tail.map (fun n : Nat => I32.wrap n) ∧
      (rows.foldl ListBuilder.push b).valid = b.valid ++ rows.map Option.isSome := by
  induction rows generalizing b with
  | nil => simp [Segments.offsetsFrom]
  | cons row rows ih =>
      have hpush : (b.push row).flat = b.flat ++ itemsOf row ∧
          (b.push row).offsets = b.offsets ++ [I32.wrap (b.flat ++ itemsOf row).length] ∧
          (b.push row).valid = b.valid ++ [row.isSome] ∧
          (b.push row).total = I32.wrap (b.flat ++ itemsOf row).length := by
        cases row with
        | none => simp [ListBuilder.push, itemsOf, htotal]
        | some items => simp [ListBuilder.push, itemsOf, htotal, wrap_add]
      obtain ⟨hflat, hoffsets, hvalid, htotal'⟩ := hpush
      rw [← hflat] at hoffsets htotal'
      obtain ⟨hflat', hoffsets', hvalid'⟩ := ih (b.push row) htotal'
      have htail := Segments.offsetsFrom_eq_cons (b.push row).flat.length
        (rows.map fun row => (itemsOf row).length)
      have hlen : b.flat.length + (itemsOf row).length = (b.push row).flat.length := by
        rw [hflat, List.length_append]
      refine ⟨?_, ?_, ?_⟩
      · rw [List.foldl_cons, hflat', hflat, List.map_cons, List.flatten_cons, List.append_assoc]
      · rw [List.foldl_cons, hoffsets', hoffsets, List.map_cons, Segments.offsetsFrom,
          List.tail_cons, hlen, htail, List.map_cons, List.tail_cons, List.append_assoc]
        rfl
      · rw [List.foldl_cons, hvalid', hvalid, List.map_cons, List.append_assoc]
        rfl

/-- The items that a list column will hold, over all rows. -/
def total (rows : List (Option (List α))) : Nat := (rows.map fun row => (itemsOf row).length).sum

theorem ofRows_flat (rows : List (Option (List α))) :
    (ListBuilder.ofRows rows).flat = (rows.map itemsOf).flatten :=
  (foldl_push .new rfl rows).1

theorem ofRows_valid (rows : List (Option (List α))) :
    (ListBuilder.ofRows rows).valid = rows.map Option.isSome :=
  (foldl_push .new rfl rows).2.2

theorem ofRows_offsets (rows : List (Option (List α))) :
    (ListBuilder.ofRows rows).offsets =
      (Segments.offsetsFrom 0 (rows.map fun row => (itemsOf row).length)).map
        (fun n : Nat => I32.wrap n) := by
  rw [ListBuilder.ofRows, (foldl_push .new rfl rows).2.1, Segments.offsetsFrom_eq_cons 0]
  rfl

/-- A list column with less than 2^31 items is built from the column of its items, and holds
one list for each row. -/
theorem newList_cells {rt : Runtime} {field : Field DataType} {rows : List (Option (List α))}
    {child : Arr} {cell : α → Cell} (hnullable : field.nullable = true)
    (hchild : child.cells = (ListBuilder.ofRows rows).flat.map cell)
    (htotal : total rows < 0x80000000) :
    (newList rt field (.ofRows rows) child).map Arr.cells =
      .ok (rows.map (optCell fun items => .list (items.map cell))) := by
  rw [ofRows_flat, List.map_flatten, List.map_map] at hchild
  have hlens : rows.map (fun row => (itemsOf row).length) =
      (rows.map (List.map cell ∘ itemsOf)).map List.length := by
    rw [List.map_map]
    exact List.map_congr_left fun row _ => (List.length_map _).symm
  have htaken : ListTaken field
      (Segments.offsetsFrom 0 (rows.map fun row => (itemsOf row).length)) child
      (some (rows.map Option.isSome)) := by
    refine ⟨?_, ?_, .inl hnullable⟩
    · rw [Segments.getLast?_offsetsFrom, Arr.len, hchild, List.length_flatten, ← hlens]
      simp
    · simp [Covers]
  have hread : maskCells (some (rows.map Option.isSome))
      ((rows.map (List.map cell ∘ itemsOf)).map .list) =
        rows.map (optCell fun items => .list (items.map cell)) := by
    rw [maskCells, List.map_map, List.zipWith_map, List.zipWith_self]
    apply List.map_congr_left
    intro row _
    cases row <;> rfl
  rw [newList, ofRows_offsets, ValueOut.offsetBuffer_wrap htotal, ofRows_valid]
  change (orPanic _).map Arr.cells = _
  rw [(rt.arrays.list_makes _ _ _ _).ok htaken, orPanic]
  change Except.ok (Arr.cells _) = _
  rw [Arr.cells, hchild, hlens, Segments.slices_flatten, hread]

/-- A list column is built from the column of its items, and holds one list for each row. -/
theorem newList_yields {rt : Runtime} {field : Field DataType} {rows : List (Option (List α))}
    {child : Except Fault Arr} {cell : α → Cell} (hnullable : field.nullable = true)
    (hchild : Yields child field.dataType ((ListBuilder.ofRows rows).flat.map cell)) :
    Yields (child.bind (newList rt field (.ofRows rows))) (.list field)
      (rows.map (optCell fun items => .list (items.map cell))) := by
  intro hfit
  have hitems : (rows.map (optCell fun items => .list (items.map cell))).flatMap listItems =
      (ListBuilder.ofRows rows).flat.map cell := by
    rw [ofRows_flat, List.map_flatten, List.map_map, List.flatMap_def, List.map_map]
    congr 1
    apply List.map_congr_left
    intro row _
    cases row <;> rfl
  rw [cellsFit, hitems, Bool.and_eq_true, decide_eq_true_eq, List.length_map] at hfit
  obtain ⟨a, rfl, ha⟩ := hchild.exists_ok hfit.2
  have htotal : total rows < 0x80000000 := by
    rw [ofRows_flat, List.length_flatten, List.map_map] at hfit
    exact hfit.1
  exact newList_cells hnullable ha htotal

def listCell (items : List Bytes) : Cell := .list (items.map .bytes)

theorem listBinaryArray_yields {rt : Runtime} {ρ : Type} (value : ρ → Option (List Bytes))
    (rows : List ρ) :
    Yields (listBinaryArray rt (rows.map value)) (.list ⟨"item", .binary, true⟩)
      (rows.map fun row => optCell listCell (value row)) := by
  exact .of_map (newList_yields rfl (optArray_yields rfl _ some _))

/-! ## COSE headers and keys -/

section Cose

open Cose CoseKey

variable (rt : Runtime)

def nullable (name : String) (dt : DataType) : Field DataType := ⟨name, dt, true⟩

def x5tFields : List (Field DataType) := [nullable "hash_alg" .utf8, nullable "thumbprint" .binary]

def headerFields : List (Field DataType) :=
  [nullable "alg" .utf8, nullable "crit" .utf8, nullable "content_type" .utf8,
    nullable "kid" .binary, nullable "iv" .binary,
    nullable "x5chain" (.list (nullable "item" .binary)), nullable "x5t" (.struct x5tFields)]

/-- Thumbprints with their hash algorithms. -/
def x5tArray (x5t : List (Option (String × Bytes))) : Except Fault Arr := do
  let columns ← columnsOf
    [stringArray (x5t.map fun x => x.map Prod.fst), binaryArray (x5t.map fun x => x.map Prod.snd)]
  newStruct rt x5tFields columns (some (x5t.map fun x => x.isSome))

/-- One header struct for each row, never null.  The fields that a message does not have are. -/
def headerArray (col : List CoseHeaders) : Except Fault Arr := do
  let x5t ← x5tArray rt (col.map fun h => h.x5t)
  let columns ← columnsOf
    [stringArray (col.map fun h => h.alg), stringArray (col.map fun h => h.crit),
      stringArray (col.map fun h => h.contentType), binaryArray (col.map fun h => h.kid),
      binaryArray (col.map fun h => h.iv), listBinaryArray rt (col.map fun h => h.x5chain),
      .ok x5t]
  newStruct rt headerFields columns none

/-- Header structs, null where there are no headers.  The fields of the struct are built once
and put under a mask. -/
def headerArrayOpt (col : List (Option CoseHeaders)) : Except Fault Arr := do
  let inner ← headerArray rt (col.map fun h => h.getD CoseHeaders.default)
  match inner with
  | .struct _ columns _ => newStruct rt headerFields columns (some (col.map fun h => h.isSome))
  | _ => .error (.panic "called Option::unwrap() on a None value")

def coseKeyFields : List (Field DataType) :=
  [nullable "kty" .utf8, nullable "kid" .binary, nullable "alg" .utf8, nullable "crv" .utf8,
    nullable "x" .binary, nullable "y" .binary, nullable "n" .binary, nullable "e" .binary]

def coseKeyArray (col : List (Option CoseKeyInfo)) : Except Fault Arr := do
  let columns ← columnsOf
    [stringArray (col.map fun k => k.bind fun k => k.kty),
      binaryArray (col.map fun k => k.bind fun k => k.kid),
      stringArray (col.map fun k => k.bind fun k => k.alg),
      stringArray (col.map fun k => k.bind fun k => k.crv),
      binaryArray (col.map fun k => k.bind fun k => k.x),
      binaryArray (col.map fun k => k.bind fun k => k.y),
      binaryArray (col.map fun k => k.bind fun k => k.n),
      binaryArray (col.map fun k => k.bind fun k => k.e)]
  newStruct rt coseKeyFields columns (some (col.map fun k => k.isSome))

/-- The cell of a thumbprint with its hash algorithm. -/
def x5tCell (x5t : String × Bytes) : Cell := .struct [.text x5t.1, .bytes x5t.2]

/-- The cells of the fields of a header struct. -/
def headerCells : List (CoseHeaders → Cell) :=
  [fun h => optCell .text h.alg, fun h => optCell .text h.crit,
    fun h => optCell .text h.contentType, fun h => optCell .bytes h.kid,
    fun h => optCell .bytes h.iv, fun h => optCell listCell h.x5chain,
    fun h => optCell x5tCell h.x5t]

/-- The cell of a header struct: its fields in the order of the schema. -/
def headerCell (h : CoseHeaders) : Cell := .struct (headerCells.map fun cell => cell h)

/-- The cell of a key struct.  Private keys have no field here. -/
def keyCell (k : CoseKeyInfo) : Cell :=
  .struct [optCell .text k.kty, optCell .bytes k.kid, optCell .text k.alg, optCell .text k.crv,
    optCell .bytes k.x, optCell .bytes k.y, optCell .bytes k.n, optCell .bytes k.e]

variable {rt}

theorem x5tArray_yields {ρ : Type} (value : ρ → Option (String × Bytes)) (rows : List ρ) :
    Yields (x5tArray rt (rows.map value)) (.struct x5tFields)
      (rows.map fun row => optCell x5tCell (value row)) := by
  apply Yields.of_map
  apply @newStruct_opt _ _ _ _ [fun x => optCell .text (x.map Prod.fst),
    fun x => optCell .bytes (x.map Prod.snd)]
  · exact .cons (optArray_yields rfl _ _ _) (.cons (optArray_yields rfl _ _ _) .nil)
  · simp [x5tFields, nullable]
  · rfl
  · simp
  · simp [optCell]
  · exact fun _ => rfl

/-- The columns of the header structs, if each of them fits. -/
theorem headerArray_columns {col : List CoseHeaders}
    (hfits : List.Forall₂ (fun field cell => cellsFit field.dataType (col.map cell) = true)
      headerFields headerCells) :
    ∃ columns, headerArray rt col = .ok (.struct col.length columns none) ∧
      Columns col columns headerCells := by
  have hx5t : cellsFit (.struct x5tFields) (col.map fun h => optCell x5tCell h.x5t) = true := by
    simp only [headerFields, headerCells, List.forall₂_cons] at hfits
    exact hfits.2.2.2.2.2.2.1
  obtain ⟨x5t, hx5t, hx5tCells⟩ :=
    (@x5tArray_yields rt _ (fun h : CoseHeaders => h.x5t) col).exists_ok hx5t
  have hyields : List.Forall₂ (fun column fc => Yields column fc.1.dataType (col.map fc.2))
      [stringArray (col.map fun h => h.alg), stringArray (col.map fun h => h.crit),
        stringArray (col.map fun h => h.contentType), binaryArray (col.map fun h => h.kid),
        binaryArray (col.map fun h => h.iv), listBinaryArray rt (col.map fun h => h.x5chain),
        .ok x5t] (headerFields.zip headerCells) :=
    .cons (optArray_yields rfl _ _ _) <| .cons (optArray_yields rfl _ _ _) <|
      .cons (optArray_yields rfl _ _ _) <| .cons (optArray_yields rfl _ _ _) <|
      .cons (optArray_yields rfl _ _ _) <| .cons (listBinaryArray_yields _ _) <|
      .cons (.of_eq hx5tCells) .nil
  obtain ⟨columns, hbuilt, hcolumns⟩ := columnsOf_cells hyields hfits
  refine ⟨columns, ?_, hcolumns⟩
  have hstruct := (@newStruct_cells rt _ _ _ _ _ hcolumns
    (admitted_of_nullable _ (by simp [headerFields, nullable]) rfl : Admitted col headerFields _)
    (by simp [headerCells]) none).1
  rw [headerArray, hx5t]
  change (columnsOf _).bind _ = _
  rw [hbuilt]
  exact hstruct

/-- The header structs of rows that may have no headers, which are null there. -/
theorem headerArrayOpt_yields {ρ : Type} (value : ρ → Option CoseHeaders) (rows : List ρ) :
    Yields (headerArrayOpt rt (rows.map value)) (.struct headerFields)
      (rows.map fun row => optCell headerCell (value row)) := by
  intro hfit
  rw [cellsFit, List.map_map] at hfit
  have hfields := @fieldsFit_forall _ _ _ _
    (headerCells.map fun cell row => cell ((value row).getD CoseHeaders.default)) rfl
    (fun row _ => ?_) hfit
  · have hinner := hfields
    rw [List.forall₂_map_right_iff] at hinner
    obtain ⟨columns, harray, hcolumns⟩ := @headerArray_columns rt
      (rows.map fun row => (value row).getD CoseHeaders.default) (by
        simp only [List.map_map]
        exact hinner)
    obtain ⟨hstruct, hcells⟩ := @newStruct_cells rt _ _ _ _ _ hcolumns.of_map
      (admitted_of_nullable rows (by simp [headerFields, nullable]) rfl :
        Admitted rows headerFields _)
      (by simp [headerCells]) (some fun row => (value row).isSome)
    have hdefaults : (rows.map value).map (fun h => h.getD CoseHeaders.default) =
        rows.map fun row => (value row).getD CoseHeaders.default := List.map_map
    have hvalid : (rows.map value).map (fun h => h.isSome) =
        rows.map fun row => (value row).isSome := List.map_map
    rw [headerArrayOpt, hdefaults, hvalid]
    change ((headerArray rt (rows.map fun row => (value row).getD CoseHeaders.default)).bind
      _).map Arr.cells = _
    rw [harray]
    change (newStruct rt headerFields columns
      (some (rows.map fun row => (value row).isSome))).map Arr.cells = _
    rw [Option.map_some] at hstruct hcells
    rw [hstruct]
    change Except.ok (Arr.cells _) = _
    rw [hcells]
    congr 1
    apply List.map_congr_left
    intro row _
    cases hvalue : value row <;> simp [hvalue, optCell, headerCell]
  · cases hvalue : value row with
    | none => exact .inr ⟨by simp [hvalue, optCell, structFields], by
        simp only [hvalue, headerCells, List.map_cons, List.map_nil, List.forall_mem_cons]
        exact ⟨rfl, rfl, rfl, rfl, rfl, rfl, rfl, by simp⟩⟩
    | some h => exact .inl (by simp [hvalue, optCell, structFields, headerCell])

/-- The key structs of rows that may have no key. -/
theorem coseKeyArray_yields {ρ : Type} (value : ρ → Option CoseKeyInfo) (rows : List ρ) :
    Yields (coseKeyArray rt (rows.map value)) (.struct coseKeyFields)
      (rows.map fun row => optCell keyCell (value row)) := by
  apply Yields.of_map
  apply @newStruct_opt _ _ _ _ [fun k => optCell .text (k.bind fun k => k.kty),
    fun k => optCell .bytes (k.bind fun k => k.kid), fun k => optCell .text (k.bind fun k => k.alg),
    fun k => optCell .text (k.bind fun k => k.crv), fun k => optCell .bytes (k.bind fun k => k.x),
    fun k => optCell .bytes (k.bind fun k => k.y), fun k => optCell .bytes (k.bind fun k => k.n),
    fun k => optCell .bytes (k.bind fun k => k.e)]
  · exact .cons (optArray_yields rfl _ _ _) <| .cons (optArray_yields rfl _ _ _) <|
      .cons (optArray_yields rfl _ _ _) <| .cons (optArray_yields rfl _ _ _) <|
      .cons (optArray_yields rfl _ _ _) <| .cons (optArray_yields rfl _ _ _) <|
      .cons (optArray_yields rfl _ _ _) <| .cons (optArray_yields rfl _ _ _) .nil
  · simp [coseKeyFields, nullable]
  · rfl
  · simp
  · simp [optCell]
  · exact fun _ => rfl

end Cose

end VgiCbor.ArrowIo
