import VgiCbor.Lib.Budget
import VgiCbor.Lib.Segments
import VgiCbor.Core.Json

/-!
# Arrow types, cells and columns

The column types of a table, the cells a column holds, and the physical arrays
the builders assemble: nested arrays keep their elements flat, with offsets and a
validity mask.  `Arr.cells` reads an array back as one cell per row.
-/

namespace VgiCbor

open MachineInt Binary64

/-! ## Types -/

inductive TimeUnit where
  | second
  | millisecond
  | microsecond
  | nanosecond
  deriving DecidableEq

inductive Time32Unit where
  | second
  | millisecond
  deriving DecidableEq

inductive Time64Unit where
  | microsecond
  | nanosecond
  deriving DecidableEq

inductive IntType where
  | int8
  | int16
  | int32
  | int64
  | uint8
  | uint16
  | uint32
  | uint64
  deriving DecidableEq

namespace IntType

/-- The least value of the type. -/
def lo : IntType → Int
  | .int8 => -0x80
  | .int16 => -0x8000
  | .int32 => -0x80000000
  | .int64 => -0x8000000000000000
  | .uint8 | .uint16 | .uint32 | .uint64 => 0

/-- One past the greatest value of the type. -/
def hi : IntType → Int
  | .int8 => 0x80
  | .int16 => 0x8000
  | .int32 => 0x80000000
  | .int64 => 0x8000000000000000
  | .uint8 => 0x100
  | .uint16 => 0x10000
  | .uint32 => 0x100000000
  | .uint64 => 0x10000000000000000

end IntType

/-- A named, possibly nullable column or child of a nested type.  It is open in the type, so
that the data types can nest it. -/
structure Field (α : Type) where
  name : String
  dataType : α
  nullable : Bool

/-- The column types; `other` stands for those no conversion knows.  The nested types hold the
fields of their children. -/
inductive DataType where
  | null
  | boolean
  | int (t : IntType)
  | float32
  | float64
  | decimal128 (precision : Nat) (scale : I8)
  | utf8
  | largeUtf8
  | binary
  | largeBinary
  | fixedSizeBinary (width : Nat)
  | date32
  | date64
  | time32 (unit : Time32Unit)
  | time64 (unit : Time64Unit)
  | timestamp (unit : TimeUnit) (tz : Option String)
  | list (child : Field DataType)
  | largeList (child : Field DataType)
  | fixedSizeList (child : Field DataType) (size : Nat)
  | struct (fields : List (Field DataType))
  | map (entries : Field DataType) (sorted : Bool)
  | other (name : String)

namespace DataType

/-- The type has child columns. -/
def isNested : DataType → Bool
  | .list _ | .largeList _ | .fixedSizeList _ _ | .struct _ | .map _ _ => true
  | _ => false

/-- The type of a column that holds nothing but nulls. -/
def isNullType : DataType → Bool
  | .null => true
  | _ => false

/-- Induction with a hypothesis for the child types; a map also has them for the
fields of its entries. -/
theorem induct {P : DataType → Prop} (scalar : ∀ dt, dt.isNested = false → P dt)
    (list : ∀ child, P child.dataType → P (.list child))
    (largeList : ∀ child, P child.dataType → P (.largeList child))
    (fixedSizeList : ∀ child size, P child.dataType → P (.fixedSizeList child size))
    (struct : ∀ fields, (∀ f ∈ fields, P f.dataType) → P (.struct fields))
    (map : ∀ entries sorted,
      (∀ fields, entries.dataType = .struct fields → ∀ f ∈ fields, P f.dataType) →
      P (.map entries sorted))
    (dt : DataType) : P dt := by
  -- The fields of a struct come along, so that a map finds them below its entries.
  let Q (dt : DataType) : Prop :=
    P dt ∧ ∀ fields, dt = .struct fields → ∀ f ∈ fields, P f.dataType
  have leaf (dt : DataType) (h : dt.isNested = false) : Q dt :=
    ⟨scalar dt h, fun fields hfields => by rw [hfields] at h; cases h⟩
  have hQ : Q dt := by
    refine @DataType.rec Q (fun f => Q f.dataType) (fun fields => ∀ f ∈ fields, P f.dataType)
      (leaf _ rfl) (leaf _ rfl) (fun _ => leaf _ rfl) (leaf _ rfl) (leaf _ rfl)
      (fun _ _ => leaf _ rfl) (leaf _ rfl) (leaf _ rfl) (leaf _ rfl) (leaf _ rfl)
      (fun _ => leaf _ rfl) (leaf _ rfl) (leaf _ rfl) (fun _ => leaf _ rfl) (fun _ => leaf _ rfl)
      (fun _ _ => leaf _ rfl) ?_ ?_ ?_ ?_ ?_ (fun _ => leaf _ rfl) ?_ ?_ ?_ dt
    · exact fun child hchild => ⟨list child hchild.1, fun fields h => by cases h⟩
    · exact fun child hchild => ⟨largeList child hchild.1, fun fields h => by cases h⟩
    · exact fun child size hchild =>
        ⟨fixedSizeList child size hchild.1, fun fields h => by cases h⟩
    · exact fun fields hfields =>
        ⟨struct fields hfields, fun fields' h => by cases h; exact hfields⟩
    · exact fun entries sorted hentries =>
        ⟨map entries sorted hentries.2, fun fields h => by cases h⟩
    · exact fun name dt nullable hdt => hdt
    · exact fun f hf => absurd hf List.not_mem_nil
    · intro f fs hf hfs f' hf'
      rcases List.mem_cons.1 hf' with rfl | hf'
      · exact hf.1
      · exact hfs f' hf'
  exact hQ.1

end DataType

/-! ## Cells -/

/-- One cell of a column.  Integers, dates, times and timestamps are their raw
counts, which an `i64` or a `u64` holds. -/
inductive Cell where
  | null
  | bool (b : Bool)
  | int (n : Integer)
  | decimal (n : I128)
  | f32 (x : F32)
  | f64 (x : F64)
  | text (s : String)
  | bytes (b : Bytes)
  | list (items : List Cell)
  | struct (columns : List Cell)
  | map (entries : List (Cell × Cell))

def Cell.isNull : Cell → Bool
  | .null => true
  | _ => false

/-! ## Faults -/

/-- What ends a call: an error returned to the caller, or a panic.  The two kinds of error
differ in the exception that DuckDB raises for them. -/
inductive Fault where
  | valueError (message : String)
  | runtimeError (message : String)
  | panic (message : String)
  deriving DecidableEq

/-- The fault is a returned error.  Only these can be caught, retried or ignored. -/
def Fault.isRpc : Fault → Bool
  | .panic _ => false
  | _ => true

/-! ## Physical arrays -/

/-- A validity mask; `none` when every row is valid. -/
abbrev NullBuffer := Option (List Bool)

/-- A column.  Nested columns hold their elements flat, with the offsets or the size that part
them into rows. -/
inductive Arr where
  | nullArray (len : Nat)
  | leaf (cells : List Cell)
  | fixedSizeList (size : Nat) (child : Arr) (len : Nat) (nulls : NullBuffer)
  | list (offsets : List Nat) (child : Arr) (nulls : NullBuffer)
  | struct (len : Nat) (columns : List Arr) (nulls : NullBuffer)
  | map (offsets : List Nat) (keys : Arr) (values : Arr) (nulls : NullBuffer)

/-- Rows the mask marks invalid read as `NULL`, whatever is stored in their place. -/
def maskCells : NullBuffer → List Cell → List Cell
  | none, cells => cells
  | some valid, cells => List.zipWith (fun ok c => if ok then c else .null) valid cells

/-! ## Texts and blobs -/

/-- The greatest offset into the bytes of a text or blob column.  The other columns keep no
such offsets. -/
def DataType.maxOffset : DataType → Option Nat
  | .utf8 | .binary => some 0x7fffffff
  | .largeUtf8 | .largeBinary => some 0x7fffffffffffffff
  | _ => none

/-- The bytes a cell adds to a text or blob column; a null adds none. -/
def Cell.byteSize : Cell → Nat
  | .text s => s.utf8ByteSize
  | .bytes b => b.length
  | _ => 0

/-- The cells that `convert` makes of the elements, appended one after the other to the
builder of a column.  `append_value` panics where the end of a text or blob is no offset. -/
def appendAll {α : Type} (dt : DataType) (convert : α → Except Fault Cell) (xs : List α) :
    Except Fault (List Cell) :=
  Outcome.spend dt.maxOffset Cell.byteSize (.panic "byte array offset overflow") convert 0 xs

namespace Arr

mutual

/-- The cells of a column, one for each row: what a reader finds when it follows the offsets
and the mask. -/
def cells : Arr → List Cell
  | .nullArray len => List.replicate len .null
  | .leaf cs => cs
  | .fixedSizeList size child len nulls =>
      maskCells nulls ((Segments.chunks size len (cells child)).map .list)
  | .list offsets child nulls =>
      maskCells nulls ((Segments.slices (cells child) offsets).map .list)
  | .struct len columns nulls =>
      maskCells nulls ((Segments.toRows len (columnCells columns)).map .struct)
  | .map offsets keys values nulls =>
      maskCells nulls
        ((Segments.slices ((cells keys).zip (cells values)) offsets).map .map)

def columnCells : List Arr → List (List Cell)
  | [] => []
  | a :: as => cells a :: columnCells as

end

theorem columnCells_eq_map (columns : List Arr) : columnCells columns = columns.map cells := by
  induction columns with
  | nil => rfl
  | cons a as ih => rw [columnCells, ih, List.map_cons]

/-- `Array::len` -/
def len (a : Arr) : Nat := a.cells.length

/-- `Array::null_count`: a null array keeps no mask, so it counts none. -/
def nullCount : Arr → Nat
  | .nullArray _ => 0
  | a => a.cells.countP Cell.isNull

def isNullArray : Arr → Bool
  | .nullArray _ => true
  | _ => false

theorem nullCount_eq (a : Arr) :
    (a.nullCount != 0) = a.cells.any fun c => !a.isNullArray && c.isNull := by
  have hcount (cells : List Cell) : (cells.countP Cell.isNull != 0) = cells.any Cell.isNull := by
    rw [Bool.eq_iff_iff, bne_iff_ne, ← Nat.pos_iff_ne_zero, List.countP_pos_iff, List.any_eq_true]
  cases a with
  | nullArray len => simp [nullCount, isNullArray]
  | _ => simpa only [nullCount, isNullArray, Bool.not_false, Bool.true_and] using hcount _

/-- Some row is null without the parent's mask saying so.  Arrow refuses such a child under a
field that is not nullable. -/
def hasUnmaskedNulls (valid : List Bool) (a : Arr) : Bool :=
  (List.zipWith (fun ok c => ok && c.isNull) valid a.cells).any id

theorem hasUnmaskedNulls_of_forall {a : Arr} (h : ∀ c ∈ a.cells, c.isNull = false)
    (valid : List Bool) : hasUnmaskedNulls valid a = false := by
  rw [hasUnmaskedNulls, List.any_eq_false]
  intro b hb
  rw [← List.map_uncurry_zip_eq_zipWith, List.mem_map] at hb
  obtain ⟨⟨ok, c⟩, hmem, rfl⟩ := hb
  simp [h c (List.of_mem_zip hmem).2]

theorem nullCount_of_forall {a : Arr} (h : ∀ c ∈ a.cells, c.isNull = false) :
    a.nullCount = 0 := by
  have hnulls : (a.nullCount != 0) = false := by
    rw [nullCount_eq, List.any_eq_false]
    intro c hc
    simp [h c hc]
  simpa using hnulls

/-- The mask as one entry for each of `len` rows. -/
def validity (len : Nat) (nulls : NullBuffer) : List Bool :=
  nulls.getD (List.replicate len true)

end Arr

end VgiCbor
