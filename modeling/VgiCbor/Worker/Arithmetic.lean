import VgiCbor.Worker.ValueOut

/-!
# The arithmetic of the conversion

`rescale` and `instant_parts` add to an exponent and negate a shift in 32 bits, and the
fixed-size lists multiply two lengths.  What becomes of a result that does not fit
depends on the build: it wraps around, or the build checks for overflow and panics.
The conversion is stated here over either arithmetic; with the wrapping one it is
the column builder of `ValueOut` (`buildColumnIn_wrapping`).
-/

namespace VgiCbor

open MachineInt Binary64 Outcome

/-- What a build makes of the exact result of an operation on integers.  The name of the
operation is for the text of the panic. -/
structure Arithmetic where
  i32 : String → Int → Except Fault I32
  i128 : String → Int → Except Fault I128
  usize : String → Nat → Except Fault Nat

namespace Arithmetic

/-- The panic of an operation whose result does not fit. -/
def overflow (operation : String) : Fault := .panic s!"attempt to {operation} with overflow"

/-- A build with overflow checks, as the tests and a debug build have them. -/
def checked : Arithmetic where
  i32 operation n := okOr (Ranged.tryFrom _ _ n) (overflow operation)
  i128 operation n := okOr (Ranged.tryFrom _ _ n) (overflow operation)
  usize operation n := if n < 0x10000000000000000 then .ok n else .error (overflow operation)

/-- A build without them, such as the released one. -/
def wrapping : Arithmetic where
  i32 _ n := .ok (I32.wrap n)
  i128 _ n := .ok (I128.wrap n)
  usize _ n := .ok (n % 0x10000000000000000)

end Arithmetic

/-- A shift upwards is cast as it is. -/
theorem wrap_of_nonneg {n : I32} (h : 0 ≤ n.val) : (U32.wrap n.val).val = n.val :=
  U32.wrap_val_of_mem h (by have := n.lt; omega)

/-- The negated `i32::MIN` wraps to itself, and the cast undoes it. -/
theorem wrap_neg {n : I32} (h : n.val < 0) : (U32.wrap (I32.wrap (-n.val)).val).val = -n.val := by
  have := n.ge
  simp only [U32.wrap, I32.wrap]
  omega

/-- Dividing by a power of ten does not leave the range, so the division needs no check. -/
theorem tdiv_checkedPow10_mem {k : Nat} {divisor : I128} (h : I128.checkedPow10 k = some divisor)
    (n : I128) :
    -0x80000000000000000000000000000000 ≤ n.val.tdiv divisor.val ∧
      n.val.tdiv divisor.val < 0x80000000000000000000000000000000 := by
  rw [I128.checkedPow10_eq_tryFrom, Ranged.tryFrom_eq_some_iff] at h
  have hcast : divisor.val = ((10 ^ k : Nat) : Int) := by rw [h]; push_cast; rfl
  rw [hcast]
  exact tdiv_mem _ ⟨n.ge, n.lt⟩

/-! ## Instants -/

namespace Msgpack

/-- `scaleToNanos`, in the given arithmetic. -/
def scaleToNanosIn (arith : Arithmetic) (mantissa : I128) (exponent : I32) :
    Except Fault (Option I128) :=
  (arith.i32 "add" (exponent.val + 9)).bind fun shift =>
    if 0 ≤ shift.val then
      .ok ((I128.checkedPow10 (U32.wrap shift.val).val.toNat).bind fun factor =>
        I128.checkedMul mantissa factor)
    else
      (arith.i32 "negate" (-shift.val)).bind fun down =>
        (I128.checkedPow10 (U32.wrap down.val).val.toNat).elim (.ok none) fun divisor =>
          (arith.i128 "divide" (mantissa.val.tdiv divisor.val)).map some

/-- `instantParts`, in the given arithmetic; only decimal fractions are scaled by it. -/
def instantPartsIn (arith : Arithmetic) (fp : FloatOps) (inner : Value) :
    Except Fault (Option (I64 × U32)) :=
  match decimalParts inner with
  | some (mantissa, exponent) =>
      (scaleToNanosIn arith mantissa exponent).map fun total =>
        total.bind fun total =>
          (Ranged.tryFrom _ _ (total.val / 1000000000) : Option I64).map fun secs =>
            (secs, U32.wrap (total.val % 1000000000))
  | none => .ok (instantParts fp inner)

theorem instantPartsIn_wrapping (fp : FloatOps) (inner : Value) :
    instantPartsIn .wrapping fp inner = .ok (instantParts fp inner) := by
  have hscale (mantissa : I128) (exponent : I32) :
      scaleToNanosIn .wrapping mantissa exponent = .ok (scaleToNanos mantissa exponent) := by
    unfold scaleToNanosIn scaleToNanos
    show (if _ then _ else _) = Except.ok (if _ then _ else _)
    by_cases hsign : 0 ≤ (I32.wrap (exponent.val + 9)).val
    · rw [if_pos hsign, if_pos hsign, wrap_of_nonneg hsign]
    · rw [if_neg hsign, if_neg hsign]
      show Option.elim (I128.checkedPow10 (U32.wrap (I32.wrap (-_)).val).val.toNat) _ _ = _
      rw [wrap_neg (by omega)]
      cases hpow : I128.checkedPow10 (-(I32.wrap (exponent.val + 9)).val).toNat with
      | none => rfl
      | some divisor =>
          obtain ⟨hlo, hhi⟩ := tdiv_checkedPow10_mem hpow mantissa
          have hquot : I128.wrap (mantissa.val.tdiv divisor.val) = ⟨_, hlo, hhi⟩ :=
            Ranged.ext_val (I128.wrap_val_of_mem hlo hhi)
          rw [Option.bind_some, Ranged.tryFrom_of_mem hlo hhi, ← hquot]
          rfl
  unfold instantPartsIn
  cases hparts : decimalParts inner with
  | some parts => simp only [hscale, instantParts, hparts, Except.map]
  | none => rfl

end Msgpack

/-! ## Scalar columns -/

namespace ValueOut

variable (arith : Arithmetic) (rt : Runtime) (path : String)

/-- `rescale`, in the given arithmetic. -/
def rescaleIn (mantissa : I128) (exponent : I32) (scale : I8) (dt : DataType) :
    Except Fault I128 :=
  let outOfRange := err path s!"exponent {exponent.val} is out of range for {sqlType rt dt}"
  (arith.i32 "add" (exponent.val + scale.val)).bind fun shift =>
    if 0 ≤ shift.val then
      (okOr (I128.checkedPow10 (U32.wrap shift.val).val.toNat) outOfRange).bind fun factor =>
        okOr (I128.checkedMul mantissa factor)
          (err path s!"{mantissa.val}e{exponent.val} overflows {sqlType rt dt}")
    else
      (arith.i32 "negate" (-shift.val)).bind fun down =>
        (okOr (I128.checkedPow10 (U32.wrap down.val).val.toNat) outOfRange).bind fun factor =>
          if mantissa.val.tmod factor.val ≠ 0 then
            .error (err path (s!"{mantissa.val}e{exponent.val} needs more than {scale.val} " ++
              s!"fractional digits for {sqlType rt dt}"))
          else arith.i128 "divide" (mantissa.val.tdiv factor.val)

/-- `decimalAt`, in the given arithmetic; floats are scaled without any. -/
def decimalIn (v : Value) (scale : I8) (dt : DataType) : Except Fault I128 :=
  match decimalParts v with
  | some (mantissa, exponent) => rescaleIn arith rt path mantissa exponent scale dt
  | none =>
      match Bignum.fromValue v with
      | some n => rescaleIn arith rt path n wholeNumber scale dt
      | none => decimalAt rt path v scale dt

/-- `timestampAt`, in the given arithmetic. -/
def timestampIn (v : Value) (unit : TimeUnit) (dt : DataType) : Except Fault I64 :=
  let inner := untagInstant v
  match decimalParts inner with
  | some (mantissa, exponent) =>
      (rescaleIn arith rt path mantissa exponent (unitExp unit) dt).bind fun scaled =>
        okOr (Ranged.tryFrom _ _ scaled.val)
          (err path s!"epoch instant is out of range for {sqlType rt dt}")
  | none =>
      match Bignum.fromValue inner with
      | some secs =>
          (rescaleIn arith rt path secs wholeNumber (unitExp unit) dt).bind fun scaled =>
            okOr (Ranged.tryFrom _ _ scaled.val)
              (err path s!"epoch instant {secs.val}s is out of range for {sqlType rt dt}")
      | none => timestampAt rt path v unit dt

/-- `daysAt`, in the given arithmetic. -/
def daysIn (v : Value) : Except Fault I64 :=
  match v with
  | .tag t inner =>
      if t = 1 then
        (timestampIn arith rt path (.tag t inner) .second .date32).map fun secs =>
          I64.wrap (secs.val / SECS_PER_DAY)
      else dayCount path (.tag t inner)
  | v => dayCount path v

/-- `dateAt`, in the given arithmetic. -/
def dateIn (v : Value) : Except Fault Cell :=
  (daysIn arith rt path v).bind fun days =>
    (okOr (Ranged.tryFrom _ _ days.val : Option I32)
      (err path s!"{days.val} is out of range for DATE")).map fun d => .int d.widen

/-- `leafAt`, in the given arithmetic: three families of types rescale. -/
def leafIn (dt : DataType) : Option (Value → Except Fault Cell) :=
  match dt with
  | .date32 => some (dateIn arith rt path)
  | .timestamp unit tz => some fun v =>
      (timestampIn arith rt path v unit (.timestamp unit tz)).map fun n => .int n.widen
  | .decimal128 p s => some fun v =>
      (decimalIn arith rt path v s (.decimal128 p s)).map .decimal
  | dt => leafAt rt path dt

/-! ## All columns -/

mutual

/-- `buildColumn`, in the given arithmetic.  One operation is added: the capacity reserved for
a fixed-size list is multiplied out. -/
def buildColumnIn (arith : Arithmetic) (rt : Runtime) :
    DataType → String → List Value → Except Fault Arr
  | .null, _, values => .ok (.nullArray values.length)
  | .fixedSizeList ⟨name, child, nullable⟩ size, path, values =>
      -- The capacity reserved for the flattened child.
      (arith.usize "multiply" (values.length * size)).bind fun _ =>
        (values.mapM (fixedItems rt path (.fixedSizeList ⟨name, child, nullable⟩ size) size)).bind
          fun rows =>
            (buildColumnIn arith rt child s!"{path}[]" rows.flatten).bind fun column =>
              arrow path (rt.arrays.tryNewFixedSizeList ⟨name, child, nullable⟩ size column
                (nullBuffer values))
  | .list ⟨name, child, nullable⟩, path, values =>
      (flattenLists rt path values).bind fun (offsets, nulls, flat) =>
        (buildColumnIn arith rt child s!"{path}[]" flat).bind fun column =>
          arrow path (rt.arrays.tryNewList ⟨name, child, nullable⟩ offsets column nulls)
  | .struct fields, path, values =>
      (buildFieldsIn arith rt fields path values).bind fun columns =>
        match values.find? misshapen with
        | some v => .error (err path s!"expected a map for STRUCT, got {describe v}")
        | none => arrow path (rt.arrays.tryNewStruct fields columns (nullBuffer values))
  | .map ⟨name, .struct (⟨keyName, key, keyNullable⟩ :: ⟨valName, val, valNullable⟩ :: more),
      nullable⟩ _, path, values =>
      (flattenLoop (mapEntries path) values [I32.wrap 0] []).bind
        fun (offsets, flat) =>
          (buildColumnIn arith rt key s!"{path}.key" (flat.map Prod.fst)).bind fun keys =>
            (buildColumnIn arith rt val s!"{path}.value" (flat.map Prod.snd)).bind fun vals =>
              let fields := ⟨keyName, key, keyNullable⟩ :: ⟨valName, val, valNullable⟩ :: more
              (arrow path (rt.arrays.tryNewStruct fields [keys, vals] none)).bind fun _ =>
                (rt.arrays.offsetBuffer offsets).bind fun offsets =>
                  arrow path (rt.arrays.tryNewMap ⟨name, .struct fields, nullable⟩ offsets keys vals
                    (nullBuffer values))
  | .map ⟨_, .struct _, _⟩ _, path, values =>
      (flattenLoop (mapEntries path) values [I32.wrap 0] []).bind fun _ =>
        .error (.panic "index out of bounds: entry fields")
  | .map _ _, path, _ => .error (err path "MAP entries are not a struct")
  | dt, path, values =>
      match leafIn arith rt path dt with
      | none =>
          .error (err path s!"unsupported target column type {sqlType rt dt} for COPY FROM")
      | some convert =>
          (appendAll dt (nullable convert) values).bind fun cells =>
            match dt with
            | .decimal128 p s => arrow path (rt.arrays.withPrecisionAndScale p s (.leaf cells))
            | _ => .ok (.leaf cells)

/-- `buildFields`, in the given arithmetic. -/
def buildFieldsIn (arith : Arithmetic) (rt : Runtime) :
    List (Field DataType) → String → List Value → Except Fault (List Arr)
  | [], _, _ => .ok []
  | ⟨name, dt, _⟩ :: fields, path, values =>
      (buildColumnIn arith rt dt s!"{path}.{name}" (values.map (fieldOf name))).bind fun column =>
        (buildFieldsIn arith rt fields path values).map fun columns => column :: columns

end

/-! ## The build without overflow checks -/

variable {rt : Runtime} {path : String}

theorem rescaleIn_wrapping (mantissa : I128) (exponent : I32) (scale : I8) (dt : DataType) :
    rescaleIn .wrapping rt path mantissa exponent scale dt =
      rescale rt path mantissa exponent scale dt := by
  unfold rescaleIn rescale
  show (if _ then _ else _) = (if _ then _ else _)
  by_cases hsign : 0 ≤ (I32.wrap (exponent.val + scale.val)).val
  · rw [if_pos hsign, if_pos hsign, wrap_of_nonneg hsign]
  · rw [if_neg hsign, if_neg hsign]
    show ((okOr (I128.checkedPow10 (U32.wrap (I32.wrap (-_)).val).val.toNat) _).bind _) = _
    rw [wrap_neg (by omega)]
    rfl

theorem decimalIn_wrapping (v : Value) (scale : I8) (dt : DataType) :
    decimalIn .wrapping rt path v scale dt = decimalAt rt path v scale dt := by
  unfold decimalIn
  cases hparts : decimalParts v with
  | some parts => simp only [rescaleIn_wrapping, decimalAt, hparts]
  | none =>
      cases hnumber : Bignum.fromValue v with
      | some n => simp only [rescaleIn_wrapping, decimalAt, hparts, hnumber]
      | none => rfl

theorem timestampIn_wrapping (v : Value) (unit : TimeUnit) (dt : DataType) :
    timestampIn .wrapping rt path v unit dt = timestampAt rt path v unit dt := by
  unfold timestampIn
  cases hparts : decimalParts (untagInstant v) with
  | some parts => simp only [rescaleIn_wrapping, timestampAt, hparts]
  | none =>
      cases hnumber : Bignum.fromValue (untagInstant v) with
      | some n => simp only [rescaleIn_wrapping, timestampAt, hparts, hnumber]
      | none => simp only [hparts, hnumber]

theorem dateIn_wrapping (v : Value) : dateIn .wrapping rt path v = dateAt rt path v := by
  have hdays : daysIn .wrapping rt path v = daysAt rt path v := by
    cases v <;> simp only [daysIn, daysAt, timestampIn_wrapping]
  rw [dateIn, dateAt, hdays]

theorem leafIn_wrapping (path : String) (dt : DataType) :
    leafIn .wrapping rt path dt = leafAt rt path dt := by
  cases dt with
  | date32 => exact congrArg some (funext dateIn_wrapping)
  | timestamp unit tz => simp only [leafIn, leafAt, timestampIn_wrapping]
  | decimal128 p s => simp only [leafIn, leafAt, decimalIn_wrapping]
  | _ => rfl

theorem wrap_zero : I32.wrap 0 = ⟨0, by decide, by decide⟩ := rfl

/-- Without overflow checks the conversion is that of `ValueOut`.  So what is proved of one is
known of the other. -/
theorem buildColumnIn_wrapping (rt : Runtime) (dt : DataType) (path : String)
    (values : List Value) :
    buildColumnIn .wrapping rt dt path values = buildColumn rt dt path values := by
  induction dt using DataType.induct generalizing path values with
  | scalar dt hscalar =>
      have hleaf : leafIn .wrapping rt path dt = leafAt rt path dt := leafIn_wrapping path dt
      cases dt <;> first
        | cases hscalar; done
        | unfold buildColumnIn buildColumn; rfl
        | unfold buildColumnIn buildColumn; exact hleaf ▸ rfl
  | list child ih =>
      obtain ⟨name, dt, nullable⟩ := child
      simp only [buildColumnIn, buildColumn, ih]
  | largeList child ih =>
      unfold buildColumnIn buildColumn
      rfl
  | fixedSizeList child size ih =>
      obtain ⟨name, dt, nullable⟩ := child
      simp only [buildColumnIn, buildColumn, ih]
      rfl
  | struct fields ih =>
      have hfields : buildFieldsIn .wrapping rt fields path values =
          buildFields rt fields path values := by
        induction fields with
        | nil => simp only [buildFieldsIn, buildFields]
        | cons f fs ihfs =>
            obtain ⟨name, dt, nullable⟩ := f
            simp only [buildFieldsIn, buildFields, ih ⟨name, dt, nullable⟩ (by simp),
              ihfs fun f hf => ih f (List.mem_cons_of_mem _ hf)]
      unfold buildColumnIn buildColumn
      exact congrArg (Except.bind · _) hfields
  | map entries sorted ih =>
      obtain ⟨name, dt, nullable⟩ := entries
      cases dt with
      | struct fields =>
          match fields, ih with
          | [], _ => simp only [buildColumnIn, buildColumn, wrap_zero]
          | [_], _ => simp only [buildColumnIn, buildColumn, wrap_zero]
          | key :: val :: more, ih =>
              have hkey := ih _ rfl key List.mem_cons_self
              have hval := ih _ rfl val (List.mem_cons_of_mem _ List.mem_cons_self)
              simp only [buildColumnIn, buildColumn, hkey, hval, wrap_zero]
      | _ => simp only [buildColumnIn, buildColumn]

end ValueOut

end VgiCbor
