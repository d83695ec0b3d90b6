import VgiCbor.Lib.Outcome
import VgiCbor.Core.Msgpack
import VgiCbor.Worker.ArrayLibrary

/-!
# CBOR values to a typed Arrow column

`buildColumn` lands decoded values on a target column type, the inverse of
`valueAt`.  Scalar types convert value by value (`leafAt`); the nested types
flatten all rows into one child column, recurse, and assemble offsets and a
validity mask around it.
-/

namespace VgiCbor.ValueOut

open MachineInt Binary64 Outcome

def SECS_PER_DAY : Int := 86400

/-- A column-qualified error.  The path leads through the nested types to the column that
failed, such as `a.b[]`. -/
def err (path : String) (message : String) : Fault :=
  .valueError s!"column {path}: {message}"

def intSqlType : IntType → String
  | .int8 => "TINYINT"
  | .int16 => "SMALLINT"
  | .int32 => "INTEGER"
  | .int64 => "BIGINT"
  | .uint8 => "UTINYINT"
  | .uint16 => "USMALLINT"
  | .uint32 => "UINTEGER"
  | .uint64 => "UBIGINT"

/-- The SQL name of a target column type, as the error messages print it.  Nested types are
named by their kind only. -/
def sqlType (rt : Runtime) : DataType → String
  | .boolean => "BOOLEAN"
  | .int t => intSqlType t
  | .float32 => "FLOAT"
  | .float64 => "DOUBLE"
  | .utf8 | .largeUtf8 => "VARCHAR"
  | .binary | .largeBinary => "BLOB"
  | .fixedSizeBinary n => s!"a {n}-byte fixed-width value"
  | .date32 | .date64 => "DATE"
  | .time32 _ | .time64 _ => "TIME"
  | .timestamp _ (some _) => "TIMESTAMPTZ"
  | .timestamp _ none => "TIMESTAMP"
  | .decimal128 p s => s!"DECIMAL({p},{s.val})"
  | .list _ | .largeList _ => "LIST"
  | .struct _ => "STRUCT"
  | .map _ _ => "MAP"
  | .null => "NULL"
  | dt => rt.arrays.dataTypeText dt

/-- A short label for a value, for type-mismatch messages.  It never quotes the value itself. -/
def describe : Value → String
  | .null => "null"
  | .bool _ => "a boolean"
  | .integer _ => "an integer"
  | .float _ => "a float"
  | .text _ => "a text string"
  | .bytes _ => "a byte string"
  | .array _ => "an array"
  | .map _ => "a map"
  | .tag _ _ => "a tagged value"

/-- Strip semantic tags down to the tagged content.  Decimals, dates and timestamps look at
the tag of a value before they do. -/
def untag : Value → Value
  | .tag _ inner => untag inner
  | v => v

/-- The value means SQL `NULL`: it is null below its tags. -/
def isNull (v : Value) : Bool :=
  match untag v with
  | .null => true
  | _ => false

/-! ## Numbers -/

/-- An integer, or an integral float.  A float out of range of 128 bits saturates, as the cast
of the source does. -/
def asI128 (v : Value) : Option I128 :=
  match untag v with
  | .integer i => some i.widen
  | .float f => if f.isIntegral then some f.toI128 else none
  | _ => none

/-- The `(mantissa, exponent)` of a decimal fraction, tagged or bare. -/
def decimalParts (v : Value) : Option (I128 × I32) := Msgpack.decimalParts v

/-- A number as a float: a decimal fraction is multiplied out, an integer is rounded to the
nearest one. -/
def asF64 (fp : FloatOps) (v : Value) : Option F64 :=
  match decimalParts v with
  | some (mantissa, exponent) => some (fp.mul (fp.ofI128 mantissa) (fp.powi10 exponent.val))
  | none =>
      match untag v with
      | .float f => some f
      | .integer i => some (fp.ofI128 i.widen)
      | _ => none

/-- `i8::try_from(n).ok()` and its siblings: the integer, if the type has it. -/
def toNative (t : IntType) (n : I128) : Option Integer :=
  if t.lo ≤ n.val ∧ n.val < t.hi then Ranged.tryFrom _ _ n.val else none

variable (rt : Runtime) (path : String)

/-- One row of an integer column.  A value that is no integer and an integer out of range have
errors of their own. -/
def intAt (t : IntType) (v : Value) : Except Fault Cell :=
  (okOr (asI128 v)
    (err path s!"expected an integer for {intSqlType t}, got {describe v}")).bind fun raw =>
      (okOr (toNative t raw) (err path s!"{raw.val} is out of range for {intSqlType t}")).map .int

/-- One row of a float column of the given type. -/
def floatAt (dt : DataType) (toNative : F64 → Cell) (v : Value) : Except Fault Cell :=
  (okOr (asF64 rt.fp v)
    (err path s!"expected a number for {sqlType rt dt}, got {describe v}")).map toNative

/-- Rescale `mantissa × 10^exponent` to a fixed number of fractional digits; a
value that would lose digits is refused. -/
def rescale (mantissa : I128) (exponent : I32) (scale : I8) (dt : DataType) : Except Fault I128 :=
  let shift := (I32.wrap (exponent.val + scale.val)).val
  let outOfRange := err path s!"exponent {exponent.val} is out of range for {sqlType rt dt}"
  if 0 ≤ shift then
    (okOr (I128.checkedPow10 shift.toNat) outOfRange).bind fun factor =>
      okOr (I128.checkedMul mantissa factor)
        (err path s!"{mantissa.val}e{exponent.val} overflows {sqlType rt dt}")
  else
    (okOr (I128.checkedPow10 (-shift).toNat) outOfRange).bind fun factor =>
      -- Scaling down is exact only when the dropped digits are all zero.
      if mantissa.val.tmod factor.val ≠ 0 then
        .error (err path (s!"{mantissa.val}e{exponent.val} needs more than {scale.val} " ++
          s!"fractional digits for {sqlType rt dt}"))
      else .ok (I128.wrap (mantissa.val.tdiv factor.val))

/-- The exponent of an integer. -/
def wholeNumber : I32 := ⟨0, by decide, by decide⟩

/-- The unscaled integer of a decimal cell.  Decimal fractions and integers are rescaled
exactly or refused; only a float is rounded. -/
def decimalAt (v : Value) (scale : I8) (dt : DataType) : Except Fault I128 :=
  match decimalParts v with
  | some (mantissa, exponent) => rescale rt path mantissa exponent scale dt
  | none =>
      match Bignum.fromValue v with
      | some n => rescale rt path n wholeNumber scale dt
      | none =>
          (okOr (asF64 rt.fp v)
            (err path (s!"expected a decimal fraction, integer, or number for " ++
              s!"{sqlType rt dt}, got {describe v}"))).bind fun raw =>
            let scaled := rt.fp.round (rt.fp.mul raw (rt.fp.powi10 scale.val))
            let outOfRange :=
              err path s!"{rt.fp.display raw} is out of range for {sqlType rt dt}"
            (okOr scaled.toRat? outOfRange).bind fun q =>
              if 0x80000000000000000000000000000000 ≤ |q| then .error outOfRange
              else .ok scaled.toI128

/-- The fractional digits of a timestamp unit. -/
def unitExp : TimeUnit → I8
  | .second => I8.ofNat 0
  | .millisecond => I8.ofNat 3
  | .microsecond => I8.ofNat 6
  | .nanosecond => I8.ofNat 9

/-- The numeric content of a tag-1 instant.  Other values stand for themselves, so a bare
number is read as seconds. -/
def untagInstant : Value → Value
  | .tag t inner => if t = 1 then inner else .tag t inner
  | v => v

/-- One epoch instant as a count in the given unit.  Like a decimal it is exact or refused,
and only a float is rounded. -/
def timestampAt (v : Value) (unit : TimeUnit) (dt : DataType) : Except Fault I64 :=
  let inner := untagInstant v
  match decimalParts inner with
  | some (mantissa, exponent) =>
      (rescale rt path mantissa exponent (unitExp unit) dt).bind fun scaled =>
        okOr (Ranged.tryFrom _ _ scaled.val)
          (err path s!"epoch instant is out of range for {sqlType rt dt}")
  | none =>
      match Bignum.fromValue inner with
      | some secs =>
          (rescale rt path secs wholeNumber (unitExp unit) dt).bind fun scaled =>
            okOr (Ranged.tryFrom _ _ scaled.val)
              (err path s!"epoch instant {secs.val}s is out of range for {sqlType rt dt}")
      | none =>
          (okOr (asF64 rt.fp inner)
            (err path (s!"expected an epoch instant (CBOR tag 1, a decimal fraction, " ++
              s!"or a number of seconds) for {sqlType rt dt}, got {describe v}"))).bind fun secs =>
            let scaled := rt.fp.round (rt.fp.mul secs (rt.fp.powi10 (unitExp unit).val))
            let outOfRange :=
              err path (s!"epoch instant {rt.fp.display secs} is out of range for " ++
                s!"{sqlType rt dt}")
            (okOr scaled.toRat? outOfRange).bind fun q =>
              if -0x8000000000000000 ≤ q ∧ q < 0x8000000000000000 then .ok scaled.toI64
              else .error outOfRange

/-- A bare day count, truncated to 64 bits. -/
def dayCount (v : Value) : Except Fault I64 :=
  (okOr (asI128 v)
    (err path s!"expected a day count or epoch instant for DATE, got {describe v}")).map fun n =>
      I64.wrap n.val

/-- The days of a date value: a tag-1 instant, rounded down to its day, or a day count below
any other tag. -/
def daysAt (v : Value) : Except Fault I64 :=
  match v with
  | .tag t inner =>
      if t = 1 then
        (timestampAt rt path (.tag t inner) .second .date32).map fun secs =>
          I64.wrap (secs.val / SECS_PER_DAY)
      else dayCount path (.tag t inner)
  | v => dayCount path v

def dateAt (v : Value) : Except Fault Cell :=
  (daysAt rt path v).bind fun days =>
    (okOr (Ranged.tryFrom _ _ days.val : Option I32)
      (err path s!"{days.val} is out of range for DATE")).map fun d => .int d.widen

/-- One row of a time column, rescaled from microseconds by `toNative`.  No check keeps the
time below 24 hours. -/
def timeAt (toNative : I128 → Option Integer) (v : Value) : Except Fault Cell :=
  (okOr (asI128 v)
    (err path s!"expected microseconds since midnight for TIME, got {describe v}")).bind fun us =>
      (okOr (toNative us) (err path s!"{us.val} is out of range for TIME")).map .int

/-- `i32::try_from(us / count).ok()`: a coarser unit drops what it cannot hold. -/
def time32Native (count : Nat) (us : I128) : Option Integer :=
  (Ranged.tryFrom _ _ (us.val.tdiv count) : Option I32).map fun n => n.widen

/-- `i64::try_from(us).ok()?.checked_mul(factor)`: a finer unit is refused when the product
has no room. -/
def time64Native (factor : Nat) (us : I128) : Option Integer :=
  (Ranged.tryFrom _ _ us.val : Option I64).bind fun n =>
    (Ranged.tryFrom _ _ (n.val * factor) : Option I64).map fun n => n.widen

theorem time32Native_accepted {k : Nat} (hk : 0 < k) {u : I128}
    (h : -2147483649 * k < u.val ∧ u.val < 2147483648 * k) :
    ∃ c : Integer, c.val = u.val.tdiv k ∧ time32Native k u = some c := by
  have hlo := (le_tdiv_iff (l := -0x80000000) (show (0 : Int) < k by omega) (by decide)).2 h.1
  have hhi := (tdiv_lt_iff (h := 0x80000000) (show (0 : Int) < k by omega) (by decide)).2 h.2
  refine ⟨⟨u.val.tdiv k, by omega, by omega⟩, rfl, ?_⟩
  rw [time32Native, Ranged.tryFrom_of_mem hlo hhi]
  rfl

theorem time32Native_refused {k : Nat} (hk : 0 < k) {u : I128}
    (h : ¬ (-2147483649 * k < u.val ∧ u.val < 2147483648 * k)) :
    time32Native k u = none := by
  have hout : ¬ (-0x80000000 ≤ u.val.tdiv k ∧ u.val.tdiv k < 0x80000000) := by
    rintro ⟨hlo, hhi⟩
    exact h ⟨(le_tdiv_iff (by omega) (by decide)).1 hlo, (tdiv_lt_iff (by omega) (by decide)).1 hhi⟩
  rw [time32Native, Ranged.tryFrom_eq_none_iff.2 hout, Option.map_none]

theorem time64Native_accepted {k : Nat} {u : I128}
    (h : -0x8000000000000000 ≤ u.val ∧ u.val < 0x8000000000000000)
    (hcount : -0x8000000000000000 ≤ u.val * k ∧ u.val * k < 0x8000000000000000) :
    ∃ c : Integer, c.val = u.val * k ∧ time64Native k u = some c := by
  refine ⟨⟨u.val * k, by omega, by omega⟩, rfl, ?_⟩
  rw [time64Native, Ranged.tryFrom_of_mem h.1 h.2, Option.bind_some,
    Ranged.tryFrom_of_mem hcount.1 hcount.2]
  rfl

theorem time64Native_refused {k : Nat} {u : I128}
    (h : ¬ ((-0x8000000000000000 ≤ u.val ∧ u.val < 0x8000000000000000) ∧
      -0x8000000000000000 ≤ u.val * k ∧ u.val * k < 0x8000000000000000)) :
    time64Native k u = none := by
  rw [time64Native]
  by_cases hus : -0x8000000000000000 ≤ u.val ∧ u.val < 0x8000000000000000
  · have hcount : ¬ (-0x8000000000000000 ≤ u.val * k ∧
        u.val * k < 0x8000000000000000) := fun hcount => h ⟨hus, hcount⟩
    rw [Ranged.tryFrom_of_mem hus.1 hus.2, Option.bind_some,
      Ranged.tryFrom_eq_none_iff.2 hcount, Option.map_none]
  · rw [Ranged.tryFrom_eq_none_iff.2 hus, Option.bind_none]

/-! ## Other scalars -/

def booleanAt (v : Value) : Except Fault Cell :=
  match untag v with
  | .bool b => .ok (.bool b)
  | _ => .error (err path s!"expected a boolean for BOOLEAN, got {describe v}")

/-- Text verbatim, anything else as JSON.  So a text column accepts every value. -/
def textOf (v : Value) : String :=
  match untag v with
  | .text s => s
  | other => rt.jsonText (Json.toJsonValue rt.toPlatform other)

/-- A byte string verbatim, a text string as its UTF-8 bytes.  Nothing else has bytes. -/
def bytesOf (v : Value) : Except Fault Bytes :=
  match untag v with
  | .bytes b => .ok b
  | .text s => .ok s.toUTF8.data.toList
  | other =>
      .error (err path s!"expected a byte string for BLOB, got {describe other}")

/-- A byte string of exactly the width of the column. -/
def fixedBytesAt (width : Nat) (v : Value) : Except Fault Cell :=
  (bytesOf path v).bind fun b =>
    if b.length = width then .ok (.bytes b)
    else
      .error (err path (s!"expected exactly {width} bytes for " ++
        s!"a {width}-byte fixed-width value, got {b.length}"))

/-- The conversion of one non-null row of a scalar column.  It is `none` for the nested types,
which `buildColumn` takes apart itself, and for those without a conversion. -/
def leafAt : DataType → Option (Value → Except Fault Cell)
  | .boolean => some (booleanAt path)
  | .int t => some (intAt path t)
  | .float32 => some (floatAt rt path .float32 fun f => .f32 (rt.fp.narrow f))
  | .float64 => some (floatAt rt path .float64 .f64)
  | .date32 => some (dateAt rt path)
  | .time32 .second => some (timeAt path (time32Native 1000000))
  | .time32 .millisecond => some (timeAt path (time32Native 1000))
  | .time64 .nanosecond => some (timeAt path (time64Native 1000))
  | .time64 .microsecond => some (timeAt path (time64Native 1))
  | .timestamp unit tz => some fun v =>
      (timestampAt rt path v unit (.timestamp unit tz)).map fun n => .int n.widen
  | .decimal128 p s => some fun v =>
      (decimalAt rt path v s (.decimal128 p s)).map .decimal
  | .utf8 | .largeUtf8 => some fun v => .ok (.text (textOf rt v))
  | .binary | .largeBinary => some fun v => (bytesOf path v).map .bytes
  | .fixedSizeBinary width => some (fixedBytesAt path width)
  | _ => none

/-- A null row is a null cell whatever the conversion. -/
def nullable (convert : Value → Except Fault Cell) (v : Value) : Except Fault Cell :=
  if isNull v then .ok .null else convert v

/-! ## Flattening -/

/-- The validity mask of a column: `none` when every row is valid. -/
def nullBuffer (values : List Value) : NullBuffer :=
  if values.any isNull then some (values.map fun v => !isNull v) else none

/-- Concatenate the elements of all rows, recording the running length.  The length is
narrowed to 32 bits without a check; `offsetBuffer` finds out if it wrapped. -/
def flattenLoop {α : Type} (items : Value → Except Fault (List α)) :
    List Value → List I32 → List α → Except Fault (List I32 × List α)
  | [], offsets, flat => .ok (offsets, flat)
  | v :: values, offsets, flat =>
      (items v).bind fun row =>
        let flat := flat ++ row
        flattenLoop items values (offsets ++ [I32.wrap flat.length]) flat

/-- The elements of one list row. -/
def listItems (v : Value) : Except Fault (List Value) :=
  if isNull v then .ok []
  else
    match untag v with
    | .array items => .ok items
    | other => .error (err path s!"expected an array for LIST, got {describe other}")

/-- Flatten per-row arrays into offsets, validity and concatenated elements.  The elements of
all rows become one child column, with the offsets to part it again. -/
def flattenLists (values : List Value) :
    Except Fault (List Nat × NullBuffer × List Value) :=
  (flattenLoop (listItems path) values [⟨0, by decide, by decide⟩] []).bind fun (offsets, flat) =>
    (rt.arrays.offsetBuffer offsets).map fun offsets => (offsets, nullBuffer values, flat)

/-- The entries of one map row. -/
def mapEntries (v : Value) : Except Fault (List (Value × Value)) :=
  if isNull v then .ok []
  else
    match untag v with
    | .map entries => .ok entries
    | other => .error (err path s!"expected a map for MAP, got {describe other}")

/-- The elements of one fixed-size row.  A null row contributes `size` nulls, since the child
column has no offsets to skip it by. -/
def fixedItems (dt : DataType) (size : Nat) (v : Value) : Except Fault (List Value) :=
  if isNull v then .ok (List.replicate size .null)
  else
    match untag v with
    | .array items =>
        if items.length = size then .ok items
        else
          .error (err path (s!"expected exactly {size} elements for {sqlType rt dt}, " ++
            s!"got {items.length}"))
    | other =>
        .error (err path s!"expected an array for {sqlType rt dt}, got {describe other}")

/-- The text key a struct field is looked up by. -/
def isKey (name : String) (key : Value) : Bool :=
  match key with
  | .text t => t == name
  | _ => false

/-- A field's value in one struct row: that of the first entry under its name, tags of the key
aside.  Absent keys and rows that are no maps are null. -/
def fieldOf (name : String) (v : Value) : Value :=
  match untag v with
  | .map entries => ((entries.find? fun e => isKey name (untag e.1)).map Prod.snd).getD .null
  | _ => .null

/-- A present row that is not a map.  Its fields are all read as null before it is found. -/
def misshapen (v : Value) : Bool := !isNull v && !(untag v).isMap

/-- Report a refused array constructor on this column, under the message the constructor gave. -/
def arrow {α : Type} (result : Except String α) : Except Fault α :=
  match result with
  | .ok a => .ok a
  | .error e => .error (err path e)

/-! ## Columns -/

mutual

/-- Build the column of the given type with one row for each value.  A nested type flattens
its rows and builds the child columns before its own. -/
def buildColumn (rt : Runtime) : DataType → String → List Value → Except Fault Arr
  | .null, _, values => .ok (.nullArray values.length)
  | .fixedSizeList ⟨name, child, nullable⟩ size, path, values =>
      (values.mapM (fixedItems rt path (.fixedSizeList ⟨name, child, nullable⟩ size) size)).bind
        fun rows =>
          (buildColumn rt child s!"{path}[]" rows.flatten).bind fun column =>
            arrow path (rt.arrays.tryNewFixedSizeList ⟨name, child, nullable⟩ size column
              (nullBuffer values))
  | .list ⟨name, child, nullable⟩, path, values =>
      (flattenLists rt path values).bind fun (offsets, nulls, flat) =>
        (buildColumn rt child s!"{path}[]" flat).bind fun column =>
          arrow path (rt.arrays.tryNewList ⟨name, child, nullable⟩ offsets column nulls)
  | .struct fields, path, values =>
      (buildFields rt fields path values).bind fun columns =>
        match values.find? misshapen with
        | some v => .error (err path s!"expected a map for STRUCT, got {describe v}")
        | none => arrow path (rt.arrays.tryNewStruct fields columns (nullBuffer values))
  | .map ⟨name, .struct (⟨keyName, key, keyNullable⟩ :: ⟨valName, val, valNullable⟩ :: more),
      nullable⟩ _, path, values =>
      (flattenLoop (mapEntries path) values [⟨0, by decide, by decide⟩] []).bind
        fun (offsets, flat) =>
          (buildColumn rt key s!"{path}.key" (flat.map Prod.fst)).bind fun keys =>
            (buildColumn rt val s!"{path}.value" (flat.map Prod.snd)).bind fun vals =>
              let fields := ⟨keyName, key, keyNullable⟩ :: ⟨valName, val, valNullable⟩ :: more
              (arrow path (rt.arrays.tryNewStruct fields [keys, vals] none)).bind fun _ =>
                (rt.arrays.offsetBuffer offsets).bind fun offsets =>
                  arrow path (rt.arrays.tryNewMap ⟨name, .struct fields, nullable⟩ offsets keys vals
                    (nullBuffer values))
  | .map ⟨_, .struct _, _⟩ _, path, values =>
      (flattenLoop (mapEntries path) values [⟨0, by decide, by decide⟩] []).bind fun _ =>
        .error (.panic "index out of bounds: entry fields")
  | .map _ _, path, _ => .error (err path "MAP entries are not a struct")
  | dt, path, values =>
      match leafAt rt path dt with
      | none =>
          .error (err path s!"unsupported target column type {sqlType rt dt} for COPY FROM")
      | some convert =>
          (appendAll dt (nullable convert) values).bind fun cells =>
            match dt with
            | .decimal128 p s => arrow path (rt.arrays.withPrecisionAndScale p s (.leaf cells))
            | _ => .ok (.leaf cells)

def buildFields (rt : Runtime) :
    List (Field DataType) → String → List Value → Except Fault (List Arr)
  | [], _, _ => .ok []
  | ⟨name, dt, _⟩ :: fields, path, values =>
      (buildColumn rt dt s!"{path}.{name}" (values.map (fieldOf name))).bind fun column =>
        (buildFields rt fields path values).map fun columns => column :: columns

end

end VgiCbor.ValueOut
