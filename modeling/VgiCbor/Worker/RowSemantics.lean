import VgiCbor.Lib.Outcome
import VgiCbor.Worker.ValueOut

/-!
# What one row converts to

`rowCell` says which cell a single value becomes in a column of a given type, if
it becomes one: no paths, no error texts, no flattening.  It is the meaning that
the column builder is measured against.
-/

namespace VgiCbor.ValueOut

open MachineInt Binary64 Outcome

/-! ## Scalars -/

/-- `mantissa × 10^exponent` with `scale` fractional digits, if that is exact and fits.  The
sum of the exponents wraps around, as it does in the code. -/
def rescaled (mantissa : I128) (exponent : I32) (scale : I8) : Option I128 :=
  let shift := (I32.wrap (exponent.val + scale.val)).val
  if 0 ≤ shift then
    (I128.checkedPow10 shift.toNat).bind fun factor => I128.checkedMul mantissa factor
  else
    (I128.checkedPow10 (-shift).toNat).bind fun factor =>
      if mantissa.val.tmod factor.val ≠ 0 then none
      else some (I128.wrap (mantissa.val.tdiv factor.val))

/-- The exact number a value denotes, with `scale` fractional digits: a decimal
fraction or an integer.  `none` if it denotes none; `some none` if it does not fit. -/
def exactNumber (v : Value) (scale : I8) : Option (Option I128) :=
  match decimalParts v with
  | some (mantissa, exponent) => some (rescaled mantissa exponent scale)
  | none => (Bignum.fromValue v).map fun n => rescaled n wholeNumber scale

/-- The unscaled integer of a decimal cell: the exact number if the value denotes one, else
the rounded float. -/
def decimalOf (fp : FloatOps) (v : Value) (scale : I8) : Option I128 :=
  match exactNumber v scale with
  | some exact => exact
  | none =>
      (asF64 fp v).bind fun raw =>
        let scaled := fp.round (fp.mul raw (fp.powi10 scale.val))
        scaled.toRat?.bind fun q =>
          if 0x80000000000000000000000000000000 ≤ |q| then none else some scaled.toI128

/-- An epoch instant as a count in the given unit, exact under the same condition as a
decimal. -/
def timestampOf (fp : FloatOps) (v : Value) (unit : TimeUnit) : Option I64 :=
  match exactNumber (untagInstant v) (unitExp unit) with
  | some exact => exact.bind fun n => Ranged.tryFrom _ _ n.val
  | none =>
      (asF64 fp (untagInstant v)).bind fun secs =>
        let scaled := fp.round (fp.mul secs (fp.powi10 (unitExp unit).val))
        scaled.toRat?.bind fun q =>
          if -0x8000000000000000 ≤ q ∧ q < 0x8000000000000000 then some scaled.toI64 else none

/-- The days of a date value.  An instant before the epoch belongs to the day it falls in, not
to the next one. -/
def daysOf (fp : FloatOps) : Value → Option I64
  | .tag t inner =>
      if t = 1 then
        (timestampOf fp (.tag t inner) .second).map fun secs =>
          I64.wrap (secs.val / SECS_PER_DAY)
      else (asI128 (.tag t inner)).map fun n => I64.wrap n.val
  | v => (asI128 v).map fun n => I64.wrap n.val

/-- The bytes a value stands for. -/
def bytesOf? (v : Value) : Option Bytes :=
  match untag v with
  | .bytes b => some b
  | .text s => some s.toUTF8.data.toList
  | _ => none

/-- The cell a non-null value becomes in a scalar column.  Types without a conversion have
none. -/
def leafCell (rt : Runtime) : DataType → Value → Option Cell
  | .boolean, v =>
      match untag v with
      | .bool b => some (.bool b)
      | _ => none
  | .int t, v => (asI128 v).bind fun n => (toNative t n).map .int
  | .float32, v => (asF64 rt.fp v).map fun f => .f32 (rt.fp.narrow f)
  | .float64, v => (asF64 rt.fp v).map .f64
  | .date32, v =>
      (daysOf rt.fp v).bind fun days =>
        (Ranged.tryFrom _ _ days.val : Option I32).map fun d => .int d.widen
  | .time32 .second, v => (asI128 v).bind fun us => (time32Native 1000000 us).map .int
  | .time32 .millisecond, v => (asI128 v).bind fun us => (time32Native 1000 us).map .int
  | .time64 .nanosecond, v => (asI128 v).bind fun us => (time64Native 1000 us).map .int
  | .time64 .microsecond, v => (asI128 v).bind fun us => (time64Native 1 us).map .int
  | .timestamp unit _, v => (timestampOf rt.fp v unit).map fun n => .int n.widen
  | .decimal128 _ s, v => (decimalOf rt.fp v s).map .decimal
  | .utf8, v | .largeUtf8, v => some (.text (textOf rt v))
  | .binary, v | .largeBinary, v => (bytesOf? v).map .bytes
  | .fixedSizeBinary width, v =>
      (bytesOf? v).bind fun b => if b.length = width then some (.bytes b) else none
  | _, _ => none

/-- Code that computes a specification and reports failures as errors.  It never panics, and
it fails exactly where the specification has no value. -/
abbrev Yields {α : Type} (x : Except Fault α) (o : Option α) : Prop :=
  Outcome.Computes (fun e : Fault => e.isRpc = true) x o

variable {rt : Runtime} {path : String}

theorem yields_err {α : Type} (message : String) :
    Yields (.error (err path message) : Except Fault α) none :=
  .error rfl

/-- The fault is an error on the column with the given path. -/
def NamesColumn (path : String) (e : Fault) : Prop := ∃ message, e = err path message

/-- Code that computes a specification and reports failures as errors on its column.  This is
`Yields` with the path of the error. -/
abbrev Reports {α : Type} (path : String) (x : Except Fault α) (o : Option α) : Prop :=
  Outcome.Computes (NamesColumn path) x o

theorem reports_err {α : Type} (message : String) :
    Reports path (.error (err path message) : Except Fault α) none :=
  .error ⟨message, rfl⟩

theorem okOr_reports {α : Type} (o : Option α) (message : String) :
    Reports path (okOr o (err path message)) o :=
  .okOr o ⟨message, rfl⟩

theorem Reports.yields {α : Type} {x : Except Fault α} {o : Option α} (h : Reports path x o) :
    Yields x o := by
  refine h.mono ?_
  rintro e ⟨message, rfl⟩
  rfl

theorem rescale_reports (mantissa : I128) (exponent : I32) (scale : I8) (dt : DataType) :
    Reports path (rescale rt path mantissa exponent scale dt) (rescaled mantissa exponent scale) := by
  unfold rescale rescaled
  apply Computes.ite
  · intro _
    exact (okOr_reports _ _).bind fun factor _ => okOr_reports _ _
  · intro _
    apply (okOr_reports _ _).bind
    intro factor _
    exact Computes.ite (fun _ => reports_err _) (fun _ => .ok _)

theorem decimalAt_reports (v : Value) (scale : I8) (dt : DataType) :
    Reports path (decimalAt rt path v scale dt) (decimalOf rt.fp v scale) := by
  unfold decimalAt decimalOf exactNumber
  cases decimalParts v with
  | some parts => exact rescale_reports _ _ _ _
  | none =>
      cases Bignum.fromValue v with
      | some n => exact rescale_reports _ _ _ _
      | none =>
          apply (okOr_reports _ _).bind
          intro raw _
          apply (okOr_reports _ _).bind
          intro q _
          exact Computes.ite (fun _ => reports_err _) (fun _ => .ok _)

theorem timestampAt_reports (v : Value) (unit : TimeUnit) (dt : DataType) :
    Reports path (timestampAt rt path v unit dt) (timestampOf rt.fp v unit) := by
  simp only [timestampAt, timestampOf, exactNumber]
  cases decimalParts (untagInstant v) with
  | some parts => exact (rescale_reports _ _ _ _).bind fun n _ => okOr_reports _ _
  | none =>
      cases Bignum.fromValue (untagInstant v) with
      | some n => exact (rescale_reports _ _ _ _).bind fun n _ => okOr_reports _ _
      | none =>
          apply (okOr_reports _ _).bind
          intro secs _
          apply (okOr_reports _ _).bind
          intro q _
          exact Computes.ite (fun _ => .ok _) (fun _ => reports_err _)

theorem dayCount_reports (v : Value) :
    Reports path (dayCount path v) ((asI128 v).map fun n => I64.wrap n.val) :=
  (okOr_reports _ _).map _

theorem daysAt_reports (v : Value) : Reports path (daysAt rt path v) (daysOf rt.fp v) := by
  cases v with
  | tag t inner =>
      rw [daysAt, daysOf]
      exact Computes.ite (fun _ => (timestampAt_reports _ _ _).map _) (fun _ => dayCount_reports _)
  | _ => exact dayCount_reports _

theorem dateAt_reports (v : Value) : Reports path (dateAt rt path v) (leafCell rt .date32 v) := by
  apply (daysAt_reports v).bind
  intro days _
  exact (okOr_reports _ _).map _

theorem intAt_reports (t : IntType) (v : Value) :
    Reports path (intAt path t v) (leafCell rt (.int t) v) := by
  apply (okOr_reports _ _).bind
  intro raw _
  exact (okOr_reports _ _).map _

theorem timeAt_reports (native : I128 → Option Integer) (v : Value) :
    Reports path (timeAt path native v) ((asI128 v).bind fun us => (native us).map .int) := by
  apply (okOr_reports _ _).bind
  intro us _
  exact (okOr_reports _ _).map _

theorem floatAt_reports (dt : DataType) (toNative : F64 → Cell) (v : Value) :
    Reports path (floatAt rt path dt toNative v) ((asF64 rt.fp v).map toNative) :=
  (okOr_reports _ _).map _

theorem booleanAt_reports (v : Value) :
    Reports path (booleanAt path v) (leafCell rt .boolean v) := by
  simp only [booleanAt, leafCell]
  cases untag v with
  | bool b => exact .ok _
  | _ => exact reports_err _

theorem bytesOf_reports (v : Value) : Reports path (bytesOf path v) (bytesOf? v) := by
  unfold bytesOf bytesOf?
  cases untag v with
  | bytes b => exact .ok _
  | text s => exact .ok _
  | _ => exact reports_err _

theorem fixedBytesAt_reports (width : Nat) (v : Value) :
    Reports path (fixedBytesAt path width v) (leafCell rt (.fixedSizeBinary width) v) := by
  apply (bytesOf_reports v).bind
  intro b _
  exact Computes.ite (fun _ => .ok _) (fun _ => reports_err _)

/-- Every scalar conversion computes the cell of the row semantics, and its error names the
column. -/
theorem leafAt_reports {dt : DataType} {convert : Value → Except Fault Cell}
    (h : leafAt rt path dt = some convert) (v : Value) :
    Reports path (convert v) (leafCell rt dt v) := by
  cases dt with
  | boolean => cases h; exact booleanAt_reports v
  | int t => cases h; exact intAt_reports t v
  | float32 => cases h; exact floatAt_reports _ _ v
  | float64 => cases h; exact floatAt_reports _ _ v
  | date32 => cases h; exact dateAt_reports v
  | time32 unit => cases unit <;> cases h <;> exact timeAt_reports _ v
  | time64 unit => cases unit <;> cases h <;> exact timeAt_reports _ v
  | timestamp unit tz => cases h; exact (timestampAt_reports v unit _).map _
  | decimal128 p s => cases h; exact (decimalAt_reports v s _).map _
  | utf8 => cases h; exact .ok _
  | largeUtf8 => cases h; exact .ok _
  | binary => cases h; exact (bytesOf_reports v).map _
  | largeBinary => cases h; exact (bytesOf_reports v).map _
  | fixedSizeBinary width => cases h; exact fixedBytesAt_reports width v
  | null => cases h
  | date64 => cases h
  | list child => cases h
  | largeList child => cases h
  | fixedSizeList child size => cases h
  | struct fields => cases h
  | map entries sorted => cases h
  | other name => cases h

/-! ## Nested rows -/

/-- The items of an array, below its tags. -/
def itemsOf (v : Value) : Option (List Value) :=
  match untag v with
  | .array items => some items
  | _ => none

/-- The entries of a map, below its tags. -/
def entriesOf (v : Value) : Option (List (Value × Value)) :=
  match untag v with
  | .map entries => some entries
  | _ => none

/-- A child that is not nullable admits no null cell.  Arrow checks this when the parent array
is made. -/
def admits (nullable : Bool) (cells : List Cell) : Bool := nullable || !cells.any Cell.isNull

def fieldsAdmit (fields : List (Field DataType)) (cells : List Cell) : Bool :=
  (fields.zip cells).all fun (f, c) => f.nullable || !c.isNull

mutual

/-- The cell one value becomes in a column of the given type.  A nested value converts when
each of its parts does and none of them is a null that its field refuses. -/
def rowCell (rt : Runtime) : DataType → Value → Option Cell
  | .null, _ => some .null
  | .fixedSizeList ⟨_, child, nullable⟩ size, v =>
      if isNull v then some .null
      else
        (itemsOf v).bind fun items =>
          if items.length = size then
            (items.mapM fun i => rowCell rt child i).bind fun cells =>
              if admits nullable cells then some (.list cells) else none
          else none
  | .list ⟨_, child, nullable⟩, v =>
      if isNull v then some .null
      else
        (itemsOf v).bind fun items =>
          (items.mapM fun i => rowCell rt child i).bind fun cells =>
            if admits nullable cells then some (.list cells) else none
  | .struct fields, v =>
      if isNull v then some .null
      else
        (entriesOf v).bind fun _ =>
          (rowFields rt fields v).bind fun cells =>
            if fieldsAdmit fields cells then some (.struct cells) else none
  | .map ⟨_, .struct [⟨_, key, keyNullable⟩, ⟨_, val, valNullable⟩], _⟩ _, v =>
      if isNull v then some .null
      else
        (entriesOf v).bind fun entries =>
          (entries.mapM fun e =>
            (rowCell rt key e.1).bind fun k => (rowCell rt val e.2).map fun c => (k, c)).bind
              fun cells =>
                if admits keyNullable (cells.map Prod.fst) &&
                    admits valNullable (cells.map Prod.snd) then some (.map cells)
                else none
  | dt, v => if isNull v then some .null else leafCell rt dt v

/-- The cell of each field of a struct row.  A field the row does not have is null. -/
def rowFields (rt : Runtime) : List (Field DataType) → Value → Option (List Cell)
  | [], _ => some []
  | ⟨name, dt, _⟩ :: fields, v =>
      (rowCell rt dt (fieldOf name v)).bind fun c =>
        (rowFields rt fields v).map fun cells => c :: cells

end

theorem rowFields_eq_mapM (fields : List (Field DataType)) (v : Value) :
    rowFields rt fields v = fields.mapM fun f => rowCell rt f.dataType (fieldOf f.name v) := by
  induction fields with
  | nil => rfl
  | cons f fs ih =>
      rw [rowFields, List.mapM_cons, ih]
      cases rowCell rt f.dataType (fieldOf f.name v) with
      | none => rfl
      | some c => cases (fs.mapM fun f => rowCell rt f.dataType (fieldOf f.name v)) <;> rfl

/-! ## Supported types, and rows that fit a column -/

mutual

/-- The type has a conversion: scalar types but `Date64`, and the nested types
over supported ones, where a fixed-size list has at least one element, a struct at
least one field, and map entries are a key and a value in a non-nullable struct. -/
def supported : DataType → Bool
  | .date64 | .largeList _ | .other _ => false
  | .decimal128 p s =>
      decide (1 ≤ p ∧ p ≤ 38 ∧ s.val ≤ 38 ∧ (0 < s.val → s.val ≤ p))
  | .list ⟨_, child, _⟩ => supported child
  | .fixedSizeList ⟨_, child, _⟩ size => decide (1 ≤ size) && supported child
  | .struct fields => !fields.isEmpty && supportedFields fields
  | .map ⟨_, .struct [⟨_, key, _⟩, ⟨_, val, _⟩], nullable⟩ _ =>
      !nullable && (supported key && supported val)
  | .map _ _ => false
  | _ => true

def supportedFields : List (Field DataType) → Bool
  | [] => true
  | ⟨_, dt, _⟩ :: fields => supported dt && supportedFields fields

end

theorem supportedFields_iff {fields : List (Field DataType)} :
    supportedFields fields = true ↔ ∀ f ∈ fields, supported f.dataType = true := by
  induction fields with
  | nil => simp [supportedFields]
  | cons f fs ih => simp [supportedFields, ih]

/-- Induction over the supported types: a fixed-size list has a size, a struct has fields,
and the entries of a map are a key and a value. -/
theorem supported_induct {P : DataType → Prop}
    (scalar : ∀ dt, dt.isNested = false → supported dt = true → P dt)
    (list : ∀ name child nullable, P child → P (.list ⟨name, child, nullable⟩))
    (fixedSizeList : ∀ name child nullable size, 1 ≤ size → P child →
      P (.fixedSizeList ⟨name, child, nullable⟩ size))
    (struct : ∀ fields, fields ≠ [] → (∀ f ∈ fields, P f.dataType) → P (.struct fields))
    (map : ∀ name keyName valName key val keyNullable valNullable sorted, P key → P val →
      P (.map ⟨name, .struct [⟨keyName, key, keyNullable⟩, ⟨valName, val, valNullable⟩], false⟩
        sorted))
    {dt : DataType} (hsupported : supported dt = true) : P dt := by
  induction dt using DataType.induct with
  | scalar dt hscalar => exact scalar dt hscalar hsupported
  | list child ih =>
      obtain ⟨name, dt, nullable⟩ := child
      exact list name dt nullable (ih (by simpa [supported] using hsupported))
  | largeList child ih => simp [supported] at hsupported
  | fixedSizeList child size ih =>
      obtain ⟨name, dt, nullable⟩ := child
      simp only [supported, Bool.and_eq_true, decide_eq_true_eq] at hsupported
      exact fixedSizeList name dt nullable size hsupported.1 (ih hsupported.2)
  | struct fields ih =>
      simp only [supported, Bool.and_eq_true, supportedFields_iff] at hsupported
      refine struct fields ?_ fun f hf => ih f hf (hsupported.2 f hf)
      rintro rfl
      simp at hsupported
  | map entries sorted ih =>
      obtain ⟨name, dt, nullable⟩ := entries
      have hno : ¬ false = true := Bool.false_ne_true
      cases dt with
      | struct fields =>
          match fields, hsupported, ih with
          | [⟨keyName, key, keyNullable⟩, ⟨valName, val, valNullable⟩], hsupported, ih =>
              simp only [supported, Bool.and_eq_true, Bool.not_eq_true'] at hsupported
              obtain ⟨rfl, hkey, hval⟩ := hsupported
              exact map _ _ _ _ _ _ _ sorted (ih _ rfl _ List.mem_cons_self hkey)
                (ih _ rfl _ (List.mem_cons_of_mem _ List.mem_cons_self) hval)
          | [], hsupported, _ => exact (hno hsupported).elim
          | [_], hsupported, _ => exact (hno hsupported).elim
          | _ :: _ :: _ :: _, hsupported, _ => exact (hno hsupported).elim
      | _ => exact (hno hsupported).elim

/-- The items a list column stores for a row; a null row stores none. -/
def listRow (v : Value) : Option (List Value) := if isNull v then some [] else itemsOf v

/-- The items a fixed-size list column stores for a row; a null row stores nulls. -/
def fixedRow (size : Nat) (v : Value) : Option (List Value) :=
  if isNull v then some (List.replicate size .null)
  else (itemsOf v).bind fun items => if items.length = size then some items else none

/-- The entries a map column stores for a row. -/
def mapRow (v : Value) : Option (List (Value × Value)) :=
  if isNull v then some [] else entriesOf v

/-- All rows a column stores, one after the other: the values of its child column.  Rows that
have no items are left out. -/
def flatRows {α : Type} (row : Value → Option (List α)) (values : List Value) : List α :=
  values.flatMap fun v => (row v).getD []

/-- The bytes that the rows take in a text or blob column.  A row that does not convert takes
none. -/
def byteTotal (rt : Runtime) (dt : DataType) (values : List Value) : Nat :=
  specSize Cell.byteSize (rowCell rt dt) values

/-- The column has an offset for the end of each of the rows.  The builders keep offsets of 32
bits for VARCHAR and BLOB columns. -/
def BytesFit (rt : Runtime) (dt : DataType) (values : List Value) : Prop :=
  Within dt.maxOffset (byteTotal rt dt values)

instance (rt : Runtime) (dt : DataType) (values : List Value) : Decidable (BytesFit rt dt values) :=
  inferInstanceAs (Decidable (Within _ _))

/-- Only texts and blobs have bytes to count; other columns always fit. -/
theorem bytesFit_of_maxOffset {dt : DataType} (h : dt.maxOffset = none) (values : List Value) :
    BytesFit rt dt values := by
  rw [BytesFit, h]
  exact Within.none _

theorem BytesFit.sublist {dt : DataType} {values values' : List Value}
    (hfits : BytesFit rt dt values) (h : values'.Sublist values) : BytesFit rt dt values' :=
  hfits.mono (specSize_sublist _ h)

mutual

/-- The rows stay within the offsets: every list and map they nest has a flattened child
short enough for 32 bits, and every text or blob column has no more bytes than its own
offsets count. -/
def fits (rt : Runtime) : DataType → List Value → Bool
  | .list ⟨_, child, _⟩, values =>
      decide ((flatRows listRow values).length < 0x80000000) &&
        fits rt child (flatRows listRow values)
  | .fixedSizeList ⟨_, child, _⟩ size, values => fits rt child (flatRows (fixedRow size) values)
  | .struct fields, values => fieldsFit rt fields values
  | .map ⟨_, .struct [⟨_, key, _⟩, ⟨_, val, _⟩], _⟩ _, values =>
      let flat := flatRows mapRow values
      decide (flat.length < 0x80000000) &&
        (fits rt key (flat.map Prod.fst) && fits rt val (flat.map Prod.snd))
  | .map _ _, _ | .largeList _, _ => true
  | dt, values => decide (BytesFit rt dt values)

def fieldsFit (rt : Runtime) : List (Field DataType) → List Value → Bool
  | [], _ => true
  | ⟨name, dt, _⟩ :: fields, values =>
      fits rt dt (values.map (fieldOf name)) && fieldsFit rt fields values

end

theorem fieldsFit_iff {fields : List (Field DataType)} {values : List Value} :
    fieldsFit rt fields values = true ↔
      ∀ f ∈ fields, fits rt f.dataType (values.map (fieldOf f.name)) = true := by
  induction fields with
  | nil => simp [fieldsFit]
  | cons f fs ih => simp [fieldsFit, ih]

/-- In a scalar column only the bytes count. -/
theorem fits_scalar {dt : DataType} (hscalar : dt.isNested = false) (values : List Value) :
    fits rt dt values = decide (BytesFit rt dt values) := by
  cases dt <;> first
    | cases hscalar; done
    | simp only [fits]

theorem flatRows_of_mapM {α : Type} {row : Value → Option (List α)} {values : List Value}
    {rows : List (List α)} (h : values.mapM row = some rows) :
    flatRows row values = rows.flatten :=
  Traverse.flatMap_of_mapM (fun v r hr => by rw [hr, Option.getD_some]) h

/-- Fewer rows fit as well.  So the rows that are left after some are dropped fit if all of
them did. -/
theorem fits_sublist (dt : DataType) {values values' : List Value} (h : values'.Sublist values)
    (hfits : fits rt dt values = true) : fits rt dt values' = true := by
  have hflat {α : Type} (row : Value → Option (List α)) :
      ∀ {xs ys : List Value}, ys.Sublist xs → (flatRows row ys).Sublist (flatRows row xs) :=
    fun hsub => hsub.flatMap _
  induction dt using DataType.induct generalizing values values' with
  | scalar dt hscalar =>
      rw [fits_scalar hscalar, decide_eq_true_eq] at hfits ⊢
      exact hfits.sublist h
  | list child ih =>
      obtain ⟨name, dt, nullable⟩ := child
      simp only [fits, Bool.and_eq_true, decide_eq_true_eq] at hfits ⊢
      have hsub := hflat listRow h
      exact ⟨Nat.lt_of_le_of_lt hsub.length_le hfits.1, ih hsub hfits.2⟩
  | largeList child ih => rfl
  | fixedSizeList child size ih =>
      obtain ⟨name, dt, nullable⟩ := child
      simp only [fits] at hfits ⊢
      exact ih (hflat (fixedRow size) h) hfits
  | struct fields ih =>
      simp only [fits, fieldsFit_iff] at hfits ⊢
      exact fun f hf => ih f hf (h.map _) (hfits f hf)
  | map entries sorted ih =>
      obtain ⟨name, dt, nullable⟩ := entries
      unfold fits at hfits ⊢
      split at hfits
      case h_4 hmap =>
        cases hmap
        have hsub := hflat mapRow h
        simp only [Bool.and_eq_true, decide_eq_true_eq] at hfits ⊢
        exact ⟨Nat.lt_of_le_of_lt hsub.length_le hfits.1,
          ih _ rfl _ List.mem_cons_self (hsub.map _) hfits.2.1,
          ih _ rfl _ (List.mem_cons_of_mem _ List.mem_cons_self) (hsub.map _) hfits.2.2⟩
      all_goals simp_all

/-! ## Null rows -/

theorem untag_of_isNull {v : Value} (h : isNull v = true) : untag v = .null := by
  unfold isNull at h
  cases huntag : untag v <;> simp_all

theorem isNull_null : isNull .null = true := rfl

theorem fieldOf_of_isNull {v : Value} (h : isNull v = true) (name : String) :
    fieldOf name v = .null := by
  rw [fieldOf, untag_of_isNull h]

/-- A null row is a null cell of every type, the nested ones included. -/
theorem rowCell_of_isNull (dt : DataType) {v : Value} (h : isNull v = true) :
    rowCell rt dt v = some .null := by
  cases dt with
  | map entries sorted =>
      obtain ⟨name, entryType, nullable⟩ := entries
      unfold rowCell
      split <;> simp_all
  | _ => simp [rowCell, h]

end VgiCbor.ValueOut
