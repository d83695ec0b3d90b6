import VgiCbor.Lib.Outcome
import VgiCbor.Worker.Arrow

/-!
# The array library

The fallible constructors of arrays and batches are parameters.  `ArrayLibrary` gathers
what is documented of them: which arguments each takes, what it makes of these, and that
it refuses all others.  `ArrayLibrary.documented` does just that.
-/

namespace VgiCbor

open MachineInt Binary64 Outcome

/-! ## Record batches -/

abbrev Schema := List (Field DataType)

/-- A batch of rows, column by column.  The number of rows is kept beside the columns, as
Arrow keeps it. -/
structure RecordBatch where
  numRows : Nat
  columns : List Arr

/-- The cells of a batch, column by column. -/
def RecordBatch.cells (batch : RecordBatch) : List (List Cell) := batch.columns.map Arr.cells

/-- The cells of a batch, row by row.  This is what a reader of the batch sees, and what the
statements about COPY FROM compare. -/
def RecordBatch.rows (batch : RecordBatch) : List (List Cell) :=
  Segments.toRows batch.numRows batch.cells

/-! ## What the constructors take -/

namespace ArrayLibrary

/-- The offsets start at zero or above and never decrease. -/
def OffsetsTaken (offsets : List I32) : Prop :=
  offsets.head?.all (fun o => 0 ≤ o.val) = true ∧ (offsets.map Ranged.val).Pairwise (· ≤ ·)

/-- The mask has an entry for each of `len` rows, or is left out because no row is null. -/
def Covers : NullBuffer → Nat → Prop
  | none, _ => True
  | some valid, len => valid.length = len

/-- The rows of columns that are all of one length: those of the first.  Without columns there
are none. -/
def rowsOf : List Arr → Nat
  | [] => 0
  | first :: _ => first.len

/-- The offsets end within the child, the mask has an entry for each row, and only a
nullable child has nulls. -/
def ListTaken (field : Field DataType) (offsets : List Nat) (child : Arr)
    (nulls : NullBuffer) : Prop :=
  offsets.getLast?.getD 0 ≤ child.len ∧ Covers nulls (offsets.length - 1) ∧
    (field.nullable = true ∨ child.cells.any Cell.isNull = false)

/-- The rows of a fixed-size list.  Rows of size zero leave no trace in the child, so the mask
has to count them. -/
def fixedSizeRows (size : Nat) (child : Arr) (nulls : NullBuffer) : Nat :=
  if size = 0 then (nulls.map List.length).getD 0 else child.len / size

/-- The mask has an entry for each row, and a child that is not nullable has nulls only in
rows that are null. -/
def FixedSizeListTaken (field : Field DataType) (size : Nat) (child : Arr)
    (nulls : NullBuffer) : Prop :=
  let len := fixedSizeRows size child nulls
  Covers nulls len ∧ (field.nullable = true ∨
    Arr.hasUnmaskedNulls ((Arr.validity len nulls).flatMap (List.replicate size)) child = false)

/-- There is a column for each field, and at least one; all are of one length, which is that
of the mask; and a column that is not nullable has nulls only in rows that are null. -/
def StructTaken (fields : List (Field DataType)) (columns : List Arr) (nulls : NullBuffer) :
    Prop :=
  columns ≠ [] ∧ fields.length = columns.length ∧ (∀ c ∈ columns, c.len = rowsOf columns) ∧
    Covers nulls (rowsOf columns) ∧ ∀ fc ∈ fields.zip columns, fc.1.nullable = true ∨
      Arr.hasUnmaskedNulls (Arr.validity (rowsOf columns) nulls) fc.2 = false

/-- The offsets end within the entries, which are not nullable, and the mask has an entry
for each row. -/
def MapTaken (field : Field DataType) (offsets : List Nat) (keys : Arr) (nulls : NullBuffer) :
    Prop :=
  offsets.getLast?.getD 0 ≤ keys.len ∧ field.nullable = false ∧ Covers nulls (offsets.length - 1)

/-- At most 38 digits, and no more after the point than there are. -/
def DecimalTaken (precision : Nat) (scale : I8) : Prop :=
  1 ≤ precision ∧ precision ≤ 38 ∧ scale.val ≤ 38 ∧ (0 < scale.val → scale.val ≤ precision)

/-- There is a column for each field, and at least one; all are of one length; and only
nullable columns have nulls. -/
def BatchTaken (schema : Schema) (columns : List Arr) : Prop :=
  columns ≠ [] ∧ schema.length = columns.length ∧ (∀ c ∈ columns, c.len = rowsOf columns) ∧
    ∀ fc ∈ schema.zip columns, fc.1.nullable = true ∨ fc.2.nullCount = 0

end ArrayLibrary

open ArrayLibrary

/-- The constructors of arrays and batches.  A refusal is the text of its error. -/
structure ArrayLibrary where
  dataTypeText : DataType → String
  offsetBuffer : List I32 → Except Fault (List Nat)
  tryNewList : Field DataType → List Nat → Arr → NullBuffer → Except String Arr
  tryNewFixedSizeList : Field DataType → Nat → Arr → NullBuffer → Except String Arr
  tryNewStruct : List (Field DataType) → List Arr → NullBuffer → Except String Arr
  /-- Over the key and value columns of the entries. -/
  tryNewMap : Field DataType → List Nat → Arr → Arr → NullBuffer → Except String Arr
  withPrecisionAndScale : Nat → I8 → Arr → Except String Arr
  tryNewBatch : Schema → List Arr → Except String RecordBatch
  offsetBuffer_ok : ∀ offsets, OffsetsTaken offsets →
    offsetBuffer offsets = .ok (offsets.map fun o => o.val.toNat)
  offsetBuffer_panics : ∀ offsets, ¬ OffsetsTaken offsets →
    ∃ message, offsetBuffer offsets = .error (.panic message)
  list_makes : ∀ field offsets child nulls, Makes (tryNewList field offsets child nulls)
    (ListTaken field offsets child nulls) (.list offsets child nulls)
  fixedSizeList_makes : ∀ field size child nulls,
    Makes (tryNewFixedSizeList field size child nulls) (FixedSizeListTaken field size child nulls)
      (.fixedSizeList size child (fixedSizeRows size child nulls) nulls)
  struct_makes : ∀ fields columns nulls, Makes (tryNewStruct fields columns nulls)
    (StructTaken fields columns nulls) (.struct (rowsOf columns) columns nulls)
  map_makes : ∀ field offsets keys values nulls, Makes (tryNewMap field offsets keys values nulls)
    (MapTaken field offsets keys nulls) (.map offsets keys values nulls)
  decimal_makes : ∀ precision scale a, Makes (withPrecisionAndScale precision scale a)
    (DecimalTaken precision scale) a
  batch_makes : ∀ schema columns, Makes (tryNewBatch schema columns) (BatchTaken schema columns)
    ⟨rowsOf columns, columns⟩

namespace ArrayLibrary

instance (offsets : List I32) : Decidable (OffsetsTaken offsets) :=
  inferInstanceAs (Decidable (_ ∧ _))

instance : ∀ (nulls : NullBuffer) (len : Nat), Decidable (Covers nulls len)
  | none, _ => inferInstanceAs (Decidable True)
  | some valid, len => inferInstanceAs (Decidable (valid.length = len))

instance (field : Field DataType) (offsets : List Nat) (child : Arr) (nulls : NullBuffer) :
    Decidable (ListTaken field offsets child nulls) :=
  inferInstanceAs (Decidable (_ ∧ _ ∧ _))

instance (field : Field DataType) (size : Nat) (child : Arr) (nulls : NullBuffer) :
    Decidable (FixedSizeListTaken field size child nulls) :=
  inferInstanceAs (Decidable (_ ∧ _))

instance (fields : List (Field DataType)) (columns : List Arr) (nulls : NullBuffer) :
    Decidable (StructTaken fields columns nulls) :=
  inferInstanceAs (Decidable (¬ columns = [] ∧ _ ∧ _ ∧ _ ∧ _))

instance (field : Field DataType) (offsets : List Nat) (keys : Arr) (nulls : NullBuffer) :
    Decidable (MapTaken field offsets keys nulls) :=
  inferInstanceAs (Decidable (_ ∧ _ ∧ _))

instance (precision : Nat) (scale : I8) : Decidable (DecimalTaken precision scale) :=
  inferInstanceAs (Decidable (_ ∧ _ ∧ _ ∧ _))

instance (schema : Schema) (columns : List Arr) : Decidable (BatchTaken schema columns) :=
  inferInstanceAs (Decidable (¬ columns = [] ∧ _ ∧ _ ∧ _))

/-- A library that does what is documented, and no more.  It shows that the laws can be met,
and lets the statements be tried on fixed inputs. -/
def documented : ArrayLibrary where
  dataTypeText _ := ""
  offsetBuffer offsets :=
    if OffsetsTaken offsets then .ok (offsets.map fun o => o.val.toNat)
    else .error (.panic "offsets must be monotonically increasing")
  tryNewList field offsets child nulls :=
    if ListTaken field offsets child nulls then .ok (.list offsets child nulls) else .error ""
  tryNewFixedSizeList field size child nulls :=
    if FixedSizeListTaken field size child nulls then
      .ok (.fixedSizeList size child (fixedSizeRows size child nulls) nulls)
    else .error ""
  tryNewStruct fields columns nulls :=
    if StructTaken fields columns nulls then .ok (.struct (rowsOf columns) columns nulls)
    else .error ""
  tryNewMap field offsets keys values nulls :=
    if MapTaken field offsets keys nulls then .ok (.map offsets keys values nulls) else .error ""
  withPrecisionAndScale precision scale a :=
    if DecimalTaken precision scale then .ok a else .error ""
  tryNewBatch schema columns :=
    if BatchTaken schema columns then .ok ⟨rowsOf columns, columns⟩ else .error ""
  offsetBuffer_ok _ h := if_pos h
  offsetBuffer_panics _ h := ⟨_, if_neg h⟩
  list_makes _ _ _ _ := .ite _ _
  fixedSizeList_makes _ _ _ _ := .ite _ _
  struct_makes _ _ _ := .ite _ _
  map_makes _ _ _ _ _ := .ite _ _
  decimal_makes _ _ _ := .ite _ _
  batch_makes _ _ := .ite _ _

theorem rowsOf_eq {columns : List Arr} {len : Nat} (hne : columns ≠ [])
    (hcolumns : ∀ c ∈ columns, c.len = len) : rowsOf columns = len := by
  cases columns with
  | nil => exact absurd rfl hne
  | cons first rest => exact hcolumns first List.mem_cons_self

variable (arrays : ArrayLibrary)

/-- Every column of a batch has as many cells as the batch has rows, and there is a column. -/
theorem tryNewBatch_numRows {schema : Schema} {columns : List Arr} {batch : RecordBatch}
    (h : arrays.tryNewBatch schema columns = .ok batch) :
    batch.cells ≠ [] ∧ ∀ cells ∈ batch.cells, cells.length = batch.numRows := by
  obtain ⟨⟨hne, -, hlens, -⟩, rfl⟩ := (arrays.batch_makes schema columns).of_ok h
  refine ⟨by simpa [RecordBatch.cells] using hne, fun cells hcells => ?_⟩
  obtain ⟨c, hc, rfl⟩ := List.mem_map.1 hcells
  exact hlens c hc

end ArrayLibrary

/-! ## The platform -/

/-- The platform as the worker sees it, with the array library. -/
structure Runtime extends Platform where
  arrays : ArrayLibrary

/-- A platform for runs over rows without JSON and without float arithmetic. -/
def Runtime.bare : Runtime where
  fp :=
    { ofI128 := fun _ => ⟨0⟩, powi10 := fun _ => ⟨0⟩, mul := fun x _ => x, sub := fun x _ => x,
      round := id, floor := id, widen := F32.rebias, narrow := F64.rebias,
      display := fun _ => "" }
  parseJson := fun _ => .error ""
  jsonText := fun _ => ""
  arrays := .documented

end VgiCbor
