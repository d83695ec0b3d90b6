import VgiCbor.Core.Bignum
import VgiCbor.Worker.ArrayLibrary

/-!
# Arrow cells to CBOR values

`valueAt` is the encoder behind `encode` and `COPY … TO`.  A timestamp becomes
tag 1 over whole seconds or over a tag-4 decimal fraction, a date tag 100, a time
of day a plain count of microseconds, a decimal a tag-4 fraction over its
unscaled integer.
-/

namespace VgiCbor.ValueIn

open MachineInt Binary64

def MILLIS_PER_DAY : Nat := 86400000

/-- The fractional digits of a second that one count of the unit stands for.  `valueAt` writes
them, negated, as the exponent of a decimal fraction. -/
def unitDigits : TimeUnit → Nat
  | .second => 0
  | .millisecond => 3
  | .microsecond => 6
  | .nanosecond => 9

/-- The scale of a decimal column, negated: the exponent that its cells share. -/
def negScale (scale : I8) : Value := .integer ⟨-scale.val, by
  have := scale.lt
  omega, by
  have := scale.ge
  omega⟩

/-- A timestamp cell, as an epoch instant.  A whole number of seconds stays an integer;
anything else becomes a decimal fraction over the raw count, which loses no digit. -/
def timestampValue (unit : TimeUnit) (raw : Integer) : Value :=
  let perSec : Nat := 10 ^ unitDigits unit
  let inner :=
    if raw.val.tmod perSec = 0 then .integer (raw.tdiv perSec)
    else
      .tag 4 (.array [.integer ⟨-unitDigits unit, by cases unit <;> decide, by
        cases unit <;> decide⟩, Bignum.toValue raw.widen])
  .tag 1 inner

/-- `n as i64 * factor`: the count of a coarse time column in microseconds.  The product wraps
around, as it does in a release build. -/
def scaleTime (n : Integer) (factor : Nat) : Value :=
  .integer (Integer.ofI64 (I64.wrap (n.val * factor)))

mutual

/-- Read a cell of a column of the given type as a CBOR value.  A null cell is null whatever
the type; a type the encoder does not know is an error, and a cell that is not of the column's
type would panic in the downcast. -/
def valueAt (rt : Runtime) : DataType → Cell → Except Fault Value
  | _, .null => .ok .null
  | .null, _ => .ok .null
  | .boolean, .bool b => .ok (.bool b)
  | .int _, .int n => .ok (.integer n)
  | .float32, .f32 x => .ok (.float (rt.fp.widen x))
  | .float64, .f64 x => .ok (.float x)
  | .decimal128 _ scale, .decimal raw =>
      .ok (.tag 4 (.array [negScale scale, Bignum.toValue raw]))
  | .utf8, .text s => .ok (.text s)
  | .largeUtf8, .text s => .ok (.text s)
  | .binary, .bytes b => .ok (.bytes b)
  | .largeBinary, .bytes b => .ok (.bytes b)
  | .fixedSizeBinary _, .bytes b => .ok (.bytes b)
  | .timestamp unit _, .int raw => .ok (timestampValue unit raw)
  | .date32, .int n => .ok (.tag 100 (.integer n))
  | .date64, .int n => .ok (.tag 100 (.integer (n.tdiv MILLIS_PER_DAY)))
  | .time32 .second, .int n => .ok (scaleTime n 1000000)
  | .time32 .millisecond, .int n => .ok (scaleTime n 1000)
  | .time64 .nanosecond, .int n => .ok (.integer (n.tdiv 1000))
  | .time64 .microsecond, .int n => .ok (.integer n)
  | .list ⟨_, child, _⟩, .list items =>
      (items.mapM fun c => valueAt rt child c).map .array
  | .largeList ⟨_, child, _⟩, .list items =>
      (items.mapM fun c => valueAt rt child c).map .array
  | .fixedSizeList ⟨_, child, _⟩ _, .list items =>
      (items.mapM fun c => valueAt rt child c).map .array
  | .struct fields, .struct columns => (valueAtFields rt fields columns).map .map
  | .map ⟨_, .struct (⟨_, key, _⟩ :: ⟨_, val, _⟩ :: _), _⟩ _, .map entries =>
      (entries.mapM fun e =>
        (valueAt rt key e.1).bind fun k => (valueAt rt val e.2).map fun v => (k, v)).map .map
  | .other name, _ => .error (.runtimeError s!"encode: unsupported input type {name}")
  | _, _ => .error (.panic "array downcast")

/-- The fields of one row of a struct, in order, under their names.  The names of two fields
may be equal, so this is a list of entries and not a function. -/
def valueAtFields (rt : Runtime) :
    List (Field DataType) → List Cell → Except Fault (List (Value × Value))
  | ⟨name, dt, _⟩ :: fields, c :: columns =>
      (valueAt rt dt c).bind fun v =>
        (valueAtFields rt fields columns).map fun rest => (.text name, v) :: rest
  | _, _ => .ok []

end

section Cells

variable (rt : Runtime) (dt : DataType) (name : String) (child : DataType) (nullable : Bool)

/-- A null cell is null in a column of any type. -/
theorem valueAt_null_cell : valueAt rt dt .null = .ok .null := by
  cases dt <;> rfl

theorem valueAt_list (items : List Cell) :
    valueAt rt (.list ⟨name, child, nullable⟩) (.list items) =
      (items.mapM fun c => valueAt rt child c).map .array :=
  rfl

theorem valueAt_fixedSizeList (size : Nat) (items : List Cell) :
    valueAt rt (.fixedSizeList ⟨name, child, nullable⟩ size) (.list items) =
      (items.mapM fun c => valueAt rt child c).map .array :=
  rfl

theorem valueAt_struct (fields : List (Field DataType)) (cells : List Cell) :
    valueAt rt (.struct fields) (.struct cells) = (valueAtFields rt fields cells).map .map :=
  rfl

theorem valueAt_map (keyName valName : String) (key val : DataType)
    (keyNullable valNullable sorted : Bool) (entries : List (Cell × Cell)) :
    valueAt rt (.map ⟨name, .struct [⟨keyName, key, keyNullable⟩, ⟨valName, val, valNullable⟩],
        nullable⟩ sorted) (.map entries) =
      (entries.mapM fun e =>
        (valueAt rt key e.1).bind fun k => (valueAt rt val e.2).map fun v => (k, v)).map .map :=
  rfl

end Cells

/-- One and a half seconds before the epoch, in milliseconds. -/
def beforeEpoch : Integer := ⟨-1500, by decide, by decide⟩

example (rt : Runtime) :
    valueAt rt (.timestamp .millisecond none) (.int beforeEpoch) =
      .ok (.tag 1 (.tag 4 (.array [.integer ⟨-3, by decide, by decide⟩,
        .integer beforeEpoch]))) := by
  rfl

end VgiCbor.ValueIn
