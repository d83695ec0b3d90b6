import VgiCbor.Core.Erasure
import VgiCbor.Worker.RoundTrip

/-!
# The MessagePack wire against the CBOR one

A row written as MessagePack has its tags dropped or mirrored and its integers
narrowed.  `carried` is what comes back.  Every column loads from it what it loads
from the CBOR item, except for decimals whose unscaled value is a CBOR integer below
the 64-bit range: these are written as floats (`msgpack_wire_agrees_iff`).
-/

namespace VgiCbor.MsgpackWire

open MachineInt Binary64 Outcome ValueIn ValueOut Copy RoundTrip

variable {fp : FloatOps}

/-! ## Decimals -/

/-- The unscaled value is not one of the CBOR integers that MessagePack lacks.  These are the
ones from -2^64 up to, but without, -2^63. -/
def mantissaFits (m : I128) : Bool :=
  decide (m.val < -0x10000000000000000 ∨ -0x8000000000000000 ≤ m.val)

theorem carried_toValue {m : I128} (h : mantissaFits m = true) :
    carried fp (Bignum.toValue m) = Bignum.toValue m := by
  have hm := of_decide_eq_true h
  unfold Bignum.toValue
  cases htry : (Ranged.tryFrom _ _ m.val : Option Integer) with
  | some i =>
      have hval : i.val = m.val := Ranged.tryFrom_eq_some_iff.1 htry
      have hge := i.ge
      exact carried_integer (by omega)
  | none =>
      by_cases hsign : 0 ≤ m.val
      · simp only [if_pos hsign]
        rfl
      · simp only [if_neg hsign]
        rfl

theorem carried_toValue_below (fp : FloatOps) {m : I128} (h : mantissaFits m = false) :
    ∃ x, carried fp (Bignum.toValue m) = .float x := by
  have hm := of_decide_eq_false h
  have htry : (Ranged.tryFrom _ _ m.val : Option Integer) =
      some ⟨m.val, by omega, by omega⟩ := Ranged.tryFrom_of_mem (by omega) (by omega)
  rw [Bignum.toValue, htry]
  exact ⟨_, carried_integer_below (by show m.val < _; omega)⟩

/-- A decimal fraction arrives as the bare pair: the tag is lost, and the reader takes the
pair for what it was. -/
theorem carried_fraction (scale : I8) (mantissa : Value) :
    carried fp (.tag 4 (.array [negScale scale, mantissa])) =
      .array [negScale scale, carried fp mantissa] := by
  have hscale : carried fp (negScale scale) = negScale scale := by
    have hlt := scale.lt
    exact carried_integer (by show -0x8000000000000000 ≤ -scale.val; omega)
  rw [carried_tag (by decide) (by decide) (by decide), carried_array, List.map_cons, hscale,
    List.map_cons, List.map_nil]

theorem decimalOf_carried (scale : I8) {m : I128} (h : mantissaFits m = true) :
    decimalOf fp (carried fp (.tag 4 (.array [negScale scale, Bignum.toValue m]))) scale =
      decimalOf fp (.tag 4 (.array [negScale scale, Bignum.toValue m])) scale := by
  rw [carried_fraction, carried_toValue h]
  rfl

/-- Without its mantissa a decimal fraction is no number at all: the float in its place is not
taken for an integer. -/
theorem decimalOf_carried_below (scale : I8) {m : I128} (h : mantissaFits m = false) :
    decimalOf fp (carried fp (.tag 4 (.array [negScale scale, Bignum.toValue m]))) scale =
      none := by
  obtain ⟨x, hx⟩ := carried_toValue_below fp h
  have hparts : decimalParts (.array [negScale scale, .float x]) = none := by
    have hmantissa : Bignum.fromValue (.float x) = none := rfl
    simp only [decimalParts, Msgpack.decimalParts, hmantissa, Option.map_none,
      Option.bind_fun_none]
  rw [carried_fraction, hx, decimalOf, exactNumber, asF64, hparts]
  rfl

/-! ## Instants -/

/-- Scaling a total down by the power of ten it was scaled up with. -/
theorem rescaled_down {total raw : I128} {exponent : I32} {scale : I8} {k : Nat} (hk : k ≤ 38)
    (hshift : exponent.val + scale.val = -k) (htotal : total.val = raw.val * 10 ^ k) :
    rescaled total exponent scale = some raw := by
  by_cases hzero : k = 0
  · subst hzero
    obtain rfl : total = raw := Ranged.ext_val (by simpa using htotal)
    exact rescaled_same total (by simpa using hshift)
  obtain ⟨factor, hfactor, hval⟩ := I128.exists_checkedPow10 hk
  have hge := exponent.ge
  have hwrap : (I32.wrap (exponent.val + scale.val)).val = -k := by
    rw [hshift]
    exact I32.wrap_val_of_mem (by omega) (by omega)
  have hpos : (0 : Int) < 10 ^ k := Int.pow_pos (by decide)
  have hmod : total.val.tmod factor.val = 0 := by
    rw [hval, htotal]
    exact Int.mul_tmod_left _ _
  have hdiv : total.val.tdiv factor.val = raw.val := by
    rw [hval, htotal]
    exact Int.mul_tdiv_cancel _ (by omega)
  simp only [rescaled, hwrap]
  rw [if_neg (by omega), Int.neg_neg, Int.toNat_natCast, hfactor, Option.bind_some, if_neg
    (by rw [hmod]; simp), hdiv, Option.some.injEq]
  exact Ranged.ext_val (I128.wrap_val_of_mem raw.ge raw.lt)

/-- The instant of a decimal fraction of seconds, in whole nanoseconds.  No digit of a
timestamp is finer than that. -/
theorem scaleToNanos_up {raw total : I128} {exponent : I32} {k : Nat} (hk : k ≤ 38)
    (hshift : exponent.val + 9 = k) (htotal : total.val = raw.val * 10 ^ k) :
    Msgpack.scaleToNanos raw exponent = some total := by
  obtain ⟨factor, hfactor, hval⟩ := I128.exists_checkedPow10 hk
  have hwrap : (I32.wrap (exponent.val + 9)).val = k := by
    rw [hshift]
    exact I32.wrap_val_of_mem (by omega) (by omega)
  simp only [Msgpack.scaleToNanos, hwrap, Int.natCast_nonneg, if_true, Int.toNat_natCast, hfactor]
  rw [Option.bind_some, I128.checkedMul, Ranged.tryFrom_eq_some_iff, hval, htotal]

/-- A count of the unit as a count of nanoseconds, which has room in 128 bits, and its seconds
in 64. -/
theorem exists_nanos (unit : TimeUnit) {n : Int}
    (h : -0x8000000000000000 ≤ n ∧ n < 0x8000000000000000) :
    ∃ total : I128, total.val = n * 10 ^ (9 - unitDigits unit) ∧
      -0x8000000000000000 ≤ total.val / 1000000000 ∧
      total.val / 1000000000 < 0x8000000000000000 ∧
      (¬ ((10 ^ unitDigits unit : Nat) : Int) ∣ n → total.val % 1000000000 ≠ 0) := by
  have hbounds : -0x80000000000000000000000000000000 ≤ n * 10 ^ (9 - unitDigits unit) ∧
      n * 10 ^ (9 - unitDigits unit) < 0x80000000000000000000000000000000 := by
    cases unit <;> simp only [unitDigits] <;> omega
  refine ⟨⟨n * 10 ^ (9 - unitDigits unit), hbounds.1, hbounds.2⟩, rfl, ?_⟩
  show _ ≤ n * 10 ^ (9 - unitDigits unit) / 1000000000 ∧
    n * 10 ^ (9 - unitDigits unit) / 1000000000 < _ ∧ (_ → n * 10 ^ (9 - unitDigits unit) % 1000000000 ≠ 0)
  cases unit <;> simp only [unitDigits] <;> omega

/-- A whole number of seconds is written as an integer. -/
theorem carried_wholeSeconds (fp : FloatOps) (unit : TimeUnit) {n : Integer}
    (h : -0x8000000000000000 ≤ n.val ∧ n.val < 0x8000000000000000)
    (hwhole : n.val.tmod ((10 ^ unitDigits unit : Nat) : Int) = 0) :
    ∃ inner, carried fp (timestampValue unit n) = .tag 1 inner ∧ isNull inner = false ∧
      exactNumber inner (unitExp unit) = some (some n.widen) := by
  have hdigits := unitDigits_le unit
  have hunit := unitExp_val unit
  let q : Integer := n.tdiv (10 ^ unitDigits unit)
  have hsecs : -0x8000000000000000 ≤ q.val ∧ q.val < 0x8000000000000000 := tdiv_mem _ h
  have hmul : n.val = q.val * 10 ^ unitDigits unit := by
    have hdiv := Int.tdiv_mul_cancel (Int.dvd_of_tmod_eq_zero hwhole)
    push_cast at hdiv
    exact hdiv.symm
  have hvalue : timestampValue unit n = .tag 1 (.integer q) := by
    simp only [timestampValue, if_pos hwhole]
    rfl
  -- The wire splits it into no nanoseconds and the seconds themselves.
  have hparts : Msgpack.instantParts fp (.integer q) =
      some (⟨q.val, hsecs.1, hsecs.2⟩, ⟨0, by decide, by decide⟩) := by
    show (Ranged.tryFrom _ _ q.val : Option I64).map _ = _
    rw [Ranged.tryFrom_of_mem hsecs.1 hsecs.2, Option.map_some]
  have hscaled := rescaled_up (q := q.widen) (n := n.widen) (by omega) hunit hmul
  refine ⟨.integer q, ?_, rfl, ?_⟩
  · rw [hvalue, carried_instant hparts]
    rfl
  · show some (rescaled q.widen _ _) = _
    rw [hscaled]

/-- Anything else is written as a decimal fraction in the column's own unit. -/
theorem carried_secondsFraction (fp : FloatOps) (unit : TimeUnit) {n : Integer}
    (h : -0x8000000000000000 ≤ n.val ∧ n.val < 0x8000000000000000)
    (hwhole : n.val.tmod ((10 ^ unitDigits unit : Nat) : Int) ≠ 0) :
    ∃ inner, carried fp (timestampValue unit n) = .tag 1 inner ∧ isNull inner = false ∧
      exactNumber inner (unitExp unit) = some (some n.widen) := by
  have hdigits := unitDigits_le unit
  have hunit := unitExp_val unit
  -- `total` is the instant in nanoseconds, which the wire keeps.
  obtain ⟨total, htotal, hge, hlt, hnanos⟩ := exists_nanos unit h
  have hnot : total.val % 1000000000 ≠ 0 :=
    hnanos fun hdvd => hwhole (Int.tmod_eq_zero_of_dvd hdvd)
  let e : I128 := ⟨-unitDigits unit, by omega, by omega⟩
  let exponent : I32 := ⟨-unitDigits unit, by omega, by omega⟩
  have hvalue : timestampValue unit n = .tag 1 (.tag 4 (.array [.integer
      ⟨-unitDigits unit, by omega, by omega⟩, Bignum.toValue n.widen])) := by
    simp only [timestampValue, if_neg hwhole]
  have hfraction := decimalParts_fraction (e := .integer ⟨-unitDigits unit, by omega, by omega⟩)
    (x := e) exponent rfl rfl (Bignum.fromValue_toValue (n.widen : I128))
  have hup : Msgpack.scaleToNanos n.widen exponent = some total :=
    scaleToNanos_up (k := 9 - unitDigits unit) (by omega)
      (show -(unitDigits unit : Int) + 9 = _ by omega) htotal
  have hparts : Msgpack.instantParts fp (.tag 4 (.array [.integer
      ⟨-unitDigits unit, by omega, by omega⟩, Bignum.toValue n.widen])) =
        some (⟨total.val / 1000000000, hge, hlt⟩, U32.wrap (total.val % 1000000000)) := by
    have hfraction' : Msgpack.decimalParts _ = _ := hfraction
    simp only [Msgpack.instantParts, hfraction', hup]
    rw [Option.bind_some, Ranged.tryFrom_of_mem hge hlt, Option.map_some]
  have hwrap : (U32.wrap (total.val % 1000000000)).val = total.val % 1000000000 :=
    U32.wrap_val_of_mem (by omega) (by omega)
  -- Seconds and nanoseconds add up again on the way back.
  have htotalWrap : I128.wrap (total.val / 1000000000 * 1000000000 +
      (U32.wrap (total.val % 1000000000)).val) = total := by
    apply Ranged.ext_val
    rw [hwrap, Int.mul_comm, Int.mul_ediv_add_emod]
    exact I128.wrap_val_of_mem total.ge total.lt
  refine ⟨.tag 4 (.array [.integer ⟨-9, by decide, by decide⟩, Bignum.toValue total]), ?_, rfl, ?_⟩
  · rw [hvalue, carried_instant hparts]
    simp only [Msgpack.instantToCbor, hwrap, if_neg hnot]
    rw [hwrap] at htotalWrap
    rw [htotalWrap]
  · have hnine := decimalParts_fraction (e := .integer ⟨-9, by decide, by decide⟩)
      (x := ⟨-9, by decide, by decide⟩) ⟨-9, by decide, by decide⟩ rfl rfl
      (Bignum.fromValue_toValue total)
    have hdown : rescaled total ⟨-9, by decide, by decide⟩ (unitExp unit) = some n.widen :=
      rescaled_down (k := 9 - unitDigits unit) (by omega)
        (show (-9 : Int) + (unitExp unit).val = _ by omega) htotal
    simp only [exactNumber, hnine]
    rw [hdown]

/-- An epoch instant still denotes the count of its unit, whichever of the forms it was
written in. -/
theorem carried_timestamp (fp : FloatOps) (unit : TimeUnit) {n : Integer}
    (h : -0x8000000000000000 ≤ n.val ∧ n.val < 0x8000000000000000) :
    ∃ inner, carried fp (timestampValue unit n) = .tag 1 inner ∧ isNull inner = false ∧
      exactNumber inner (unitExp unit) = some (some n.widen) := by
  by_cases hwhole : n.val.tmod ((10 ^ unitDigits unit : Nat) : Int) = 0
  · exact carried_wholeSeconds fp unit h hwhole
  · exact carried_secondsFraction fp unit h hwhole

/-! ## Cells -/

mutual

/-- No decimal of the cell, at any depth, has an unscaled value that MessagePack
cannot hold as an integer. -/
def mantissasFit : Cell → Bool
  | .decimal m => mantissaFits m
  | .list items => allFit items
  | .struct cells => allFit cells
  | .map entries => entriesFit entries
  | _ => true

def allFit : List Cell → Bool
  | [] => true
  | c :: cs => mantissasFit c && allFit cs

def entriesFit : List (Cell × Cell) → Bool
  | [] => true
  | (k, v) :: es => (mantissasFit k && mantissasFit v) && entriesFit es

end

theorem allFit_cons (c : Cell) (cs : List Cell) :
    allFit (c :: cs) = (mantissasFit c && allFit cs) := by rw [allFit]

theorem entriesFit_cons (e : Cell × Cell) (es : List (Cell × Cell)) :
    entriesFit (e :: es) = ((mantissasFit e.1 && mantissasFit e.2) && entriesFit es) := by
  rw [entriesFit]

variable {rt : Runtime}

/-- The cell is written as a value that loads, and the MessagePack wire delivers the
same unless one of its mantissas does not fit. -/
def Carries (rt : Runtime) (dt : DataType) (c : Cell) : Prop :=
  ∃ v d, valueAt rt dt c = .ok v ∧ rowCell rt dt v = some d ∧ d.isNull = c.isNull ∧
    rowCell rt dt (carried rt.fp v) = if mantissasFit c then some d else none

theorem carries_null (dt : DataType) : Carries rt dt .null :=
  ⟨.null, .null, valueAt_null_cell rt _, rowCell_of_isNull dt isNull_null, rfl,
    rowCell_of_isNull dt isNull_null⟩

section Scalars

variable {dt : DataType} (hscalar : dt.isNested = false) (htype : dt.isNullType = false)
include hscalar htype

/-- A scalar that is written and loaded.  Whether it also crosses is for its mantissa to say. -/
theorem carries_scalar {c d : Cell} {v : Value} (hwrite : valueAt rt dt c = .ok v)
    (hvalue : isNull v = false) (hread : leafCell rt dt v = some d) (hnull : d.isNull = c.isNull)
    (hcarried : isNull (carried rt.fp v) = false)
    (hback : leafCell rt dt (carried rt.fp v) = if mantissasFit c then some d else none) :
    Carries rt dt c := by
  refine ⟨v, d, hwrite, ?_, hnull, ?_⟩
  · rw [rowCell_scalar hscalar htype hvalue, hread]
  · rw [rowCell_scalar hscalar htype hcarried, hback]

/-- A scalar whose value crosses unchanged. -/
theorem carries_same {c d : Cell} {v : Value} (hwrite : valueAt rt dt c = .ok v)
    (hvalue : isNull v = false) (hread : leafCell rt dt v = some d) (hnull : d.isNull = c.isNull)
    (hsame : carried rt.fp v = v) (hfit : mantissasFit c = true) : Carries rt dt c := by
  apply carries_scalar hscalar htype hwrite hvalue hread hnull
  · rw [hsame, hvalue]
  · rw [hsame, hread, if_pos hfit]

end Scalars

theorem carries_int {t : IntType} {n : Integer} (h : t.lo ≤ n.val ∧ n.val < t.hi) :
    Carries rt (.int t) (.int n) := by
  have hexact : Exact rt (.int t) (.int n) := exact_int h
  obtain ⟨v, hwrite, hvalue, hread⟩ := hexact
  cases hwrite
  have hlo : -0x8000000000000000 ≤ t.lo := by cases t <;> decide
  exact carries_same rfl rfl rfl rfl hread rfl (carried_integer (by omega)) rfl

theorem carries_decimal (p : Nat) (s : I8) (m : I128) :
    Carries rt (.decimal128 p s) (.decimal m) := by
  have hexact : Exact rt (.decimal128 p s) (.decimal m) := exact_decimal p s m
  obtain ⟨v, hwrite, hvalue, hread⟩ := hexact
  cases hwrite
  refine carries_scalar rfl rfl rfl rfl hread rfl ?_ ?_
  · rw [carried_fraction]
    rfl
  · rw [mantissasFit]
    cases hfit : mantissaFits m with
    | true =>
        simp only [leafCell, decimalOf_carried s hfit]
        exact hread
    | false =>
        simp only [leafCell, decimalOf_carried_below s hfit]
        rfl

theorem carries_date {n : Integer} (h : -0x80000000 ≤ n.val ∧ n.val < 0x80000000) :
    Carries rt .date32 (.int n) := by
  have hexact : Exact rt .date32 (.int n) := exact_date h
  obtain ⟨v, hwrite, hvalue, hread⟩ := hexact
  cases hwrite
  have hcarried : carried rt.fp (.tag 100 (.integer n)) = .integer n := by
    rw [carried_tag (by decide) (by decide) (by decide), carried_integer (by omega)]
  refine carries_scalar rfl rfl rfl rfl hread rfl ?_ ?_
  · rw [hcarried]
    rfl
  · rw [hcarried]
    exact hread

theorem carries_timestamp (unit : TimeUnit) (tz : Option String) {n : Integer}
    (h : -0x8000000000000000 ≤ n.val ∧ n.val < 0x8000000000000000) :
    Carries rt (.timestamp unit tz) (.int n) := by
  have hexact : Exact rt (.timestamp unit tz) (.int n) := exact_timestamp unit tz h
  obtain ⟨v, hwrite, hvalue, hread⟩ := hexact
  obtain ⟨inner, hcarried, hnull, hinner⟩ := carried_timestamp rt.fp unit h
  have hv : valueAt rt (.timestamp unit tz) (.int n) = .ok (timestampValue unit n) := rfl
  obtain rfl : timestampValue unit n = v := Except.ok.inj (hv.symm.trans hwrite)
  refine carries_scalar rfl rfl hv hvalue hread rfl ?_ ?_
  · rw [hcarried]
    exact hnull
  · rw [hcarried]
    have hfit : mantissasFit (.int n) = true := rfl
    simp only [leafCell]
    rw [timestampOf_exact hinner, Ranged.widen_val, Ranged.tryFrom_of_mem h.1 h.2,
      Option.map_some, if_pos hfit, Option.some.injEq, Cell.int.injEq]
    exact Ranged.ext_val rfl

theorem time32Native_scaled {n : Integer} {us : I128} {count : Nat} (hcount : 0 < count)
    (hus : us.val = n.val * count) (h : -0x80000000 ≤ n.val ∧ n.val < 0x80000000) :
    time32Native count us = some n := by
  have hdiv : us.val.tdiv count = n.val := by
    rw [hus]
    exact Int.mul_tdiv_cancel _ (by omega)
  rw [time32Native, hdiv, Ranged.tryFrom_of_mem h.1 h.2, Option.map_some, Option.some.injEq]
  exact Ranged.ext_val rfl

theorem carries_time32 (unit : Time32Unit) {n : Integer}
    (h : -0x80000000 ≤ n.val ∧ n.val < 0x80000000) : Carries rt (.time32 unit) (.int n) := by
  cases unit with
  | second =>
      have hwrap : (I64.wrap (n.val * (1000000 : Nat))).val = n.val * (1000000 : Nat) :=
        I64.wrap_val_of_mem (by omega) (by omega)
      have hread : leafCell rt (.time32 .second) (scaleTime n 1000000) = some (.int n) := by
        show (time32Native 1000000 _).map Cell.int = _
        rw [time32Native_scaled (by decide) hwrap h, Option.map_some]
      refine carries_same rfl rfl rfl rfl hread rfl ?_ rfl
      exact carried_integer (by show _ ≤ (I64.wrap (n.val * (1000000 : Nat))).val; omega)
  | millisecond =>
      have hwrap : (I64.wrap (n.val * (1000 : Nat))).val = n.val * (1000 : Nat) :=
        I64.wrap_val_of_mem (by omega) (by omega)
      have hread : leafCell rt (.time32 .millisecond) (scaleTime n 1000) = some (.int n) := by
        show (time32Native 1000 _).map Cell.int = _
        rw [time32Native_scaled (by decide) hwrap h, Option.map_some]
      refine carries_same rfl rfl rfl rfl hread rfl ?_ rfl
      exact carried_integer (by show _ ≤ (I64.wrap (n.val * (1000 : Nat))).val; omega)

theorem carries_time64 (unit : Time64Unit) {n : Integer}
    (h : -0x8000000000000000 ≤ n.val ∧ n.val < 0x8000000000000000) :
    Carries rt (.time64 unit) (.int n) := by
  cases unit with
  | microsecond =>
      obtain ⟨m, -, hm⟩ := @time64Native_accepted 1 n.widen h (by simpa using h)
      have hread : leafCell rt (.time64 .microsecond) (.integer n) = some (.int m) := by
        show (time64Native 1 _).map Cell.int = _
        rw [hm, Option.map_some]
      exact carries_same rfl rfl rfl rfl hread rfl (carried_integer h.1) rfl
  | nanosecond =>
      have hdiv := tdiv_mem 1000 h
      obtain ⟨m, -, hm⟩ := @time64Native_accepted 1000 (n.tdiv 1000).widen hdiv
        (tdiv_mul_mem 1000 h)
      have hread : leafCell rt (.time64 .nanosecond) (.integer (n.tdiv 1000)) = some (.int m) := by
        show (time64Native 1000 _).map Cell.int = _
        rw [hm, Option.map_some]
      exact carries_same rfl rfl rfl rfl hread rfl (carried_integer hdiv.1) rfl

/-- Every scalar type: most values cross unchanged, a timestamp in another form, and a decimal
if its mantissa does. -/
theorem carries_leaf {dt : DataType} (hscalar : dt.isNested = false)
    (hsupported : supported dt = true) {c : Cell} (htyped : wellTyped dt c = true) :
    Carries rt dt c := by
  cases dt <;> cases c <;> first
    | exact carries_null _
    | cases hscalar; done
    | cases hsupported; done
    | cases htyped; done
    | skip
  case boolean.bool b => exact carries_same rfl rfl rfl rfl rfl rfl rfl rfl
  case int.int t n => exact carries_int (by simpa [wellTyped] using htyped)
  case float32.f32 x => exact carries_same rfl rfl rfl rfl rfl rfl rfl rfl
  case float64.f64 x => exact carries_same rfl rfl rfl rfl rfl rfl rfl rfl
  case decimal128.decimal p s m => exact carries_decimal p s m
  case utf8.text s => exact carries_same rfl rfl rfl rfl rfl rfl rfl rfl
  case largeUtf8.text s => exact carries_same rfl rfl rfl rfl rfl rfl rfl rfl
  case binary.bytes b => exact carries_same rfl rfl rfl rfl rfl rfl rfl rfl
  case largeBinary.bytes b => exact carries_same rfl rfl rfl rfl rfl rfl rfl rfl
  case fixedSizeBinary.bytes width b =>
    have hread : leafCell rt (.fixedSizeBinary width) (.bytes b) = some (.bytes b) := by
      show (if b.length = width then some (Cell.bytes b) else none) = _
      rw [if_pos (by simpa [wellTyped] using htyped)]
    exact carries_same rfl rfl rfl rfl hread rfl rfl rfl
  case date32.int n => exact carries_date (by simpa [wellTyped] using htyped)
  case time32.int unit n => exact carries_time32 unit (by simpa [wellTyped] using htyped)
  case time64.int unit n => exact carries_time64 unit (by simpa [wellTyped] using htyped)
  case timestamp.int unit tz n =>
    exact carries_timestamp unit tz (by simpa [wellTyped] using htyped)

/-! ## Nested types -/

theorem admits_congr (nullable : Bool) {ds cs : List Cell}
    (h : ds.map Cell.isNull = cs.map Cell.isNull) : admits nullable ds = admits nullable cs := by
  have hany (cells : List Cell) : cells.any Cell.isNull = (cells.map Cell.isNull).any id := by
    rw [List.any_map]
    rfl
  rw [admits, admits, hany, hany, h]

theorem fieldsAdmit_congr (fields : List (Field DataType)) {ds cs : List Cell}
    (h : ds.map Cell.isNull = cs.map Cell.isNull) :
    fieldsAdmit fields ds = fieldsAdmit fields cs := by
  have hall (cells : List Cell) : fieldsAdmit fields cells =
      (fields.zip (cells.map Cell.isNull)).all fun fn => fn.1.nullable || !fn.2 := by
    rw [List.zip_map_right, List.all_map]
    rfl
  rw [hall, hall, h]

/-- A loop over cells that all cross. -/
theorem carries_items {dt : DataType} {items : List Cell} (h : ∀ c ∈ items, Carries rt dt c) :
    ∃ vs ds, (items.mapM fun c => valueAt rt dt c) = .ok vs ∧
      (vs.mapM fun v => rowCell rt dt v) = some ds ∧
      ds.map Cell.isNull = items.map Cell.isNull ∧
      ((vs.map (carried rt.fp)).mapM fun v => rowCell rt dt v) =
        if allFit items then some ds else none := by
  induction items with
  | nil => exact ⟨[], [], rfl, rfl, rfl, rfl⟩
  | cons c cs ih =>
      obtain ⟨v, d, hwrite, hread, hnull, hback⟩ := h c List.mem_cons_self
      obtain ⟨vs, ds, hwrites, hreads, hnulls, hbacks⟩ :=
        ih fun c' hc' => h c' (List.mem_cons_of_mem _ hc')
      refine ⟨v :: vs, d :: ds, ?_, ?_, ?_, ?_⟩
      · rw [List.mapM_cons, hwrite, hwrites]
        rfl
      · rw [List.mapM_cons, hread, hreads]
        rfl
      · rw [List.map_cons, List.map_cons, hnull, hnulls]
      · rw [List.map_cons, List.mapM_cons, hback, hbacks, allFit_cons]
        cases mantissasFit c <;> cases allFit cs <;> rfl

/-- Fields and their cells. -/
theorem carries_fields {fields : List (Field DataType)} {cells : List Cell}
    (h : List.Forall₂ (fun f c => Carries rt f.dataType c) fields cells) :
    ∃ vs ds, rowValues rt fields cells = .ok vs ∧ vs.length = fields.length ∧
      ((fields.zip vs).mapM fun fv => rowCell rt fv.1.dataType fv.2) = some ds ∧
      ds.map Cell.isNull = cells.map Cell.isNull ∧
      ((fields.zip (vs.map (carried rt.fp))).mapM fun fv => rowCell rt fv.1.dataType fv.2) =
        if allFit cells then some ds else none := by
  induction h with
  | nil => exact ⟨[], [], rfl, rfl, rfl, rfl, rfl⟩
  | @cons f c fs cs hfc _ ih =>
      obtain ⟨v, d, hwrite, hread, hnull, hback⟩ := hfc
      obtain ⟨vs, ds, hwrites, hlen, hreads, hnulls, hbacks⟩ := ih
      refine ⟨v :: vs, d :: ds, ?_, by rw [List.length_cons, hlen, List.length_cons], ?_, ?_, ?_⟩
      · unfold rowValues at hwrites ⊢
        rw [List.zip_cons_cons, List.mapM_cons, hwrite, hwrites]
        rfl
      · rw [List.zip_cons_cons, List.mapM_cons, hread, hreads]
        rfl
      · rw [List.map_cons, List.map_cons, hnull, hnulls]
      · rw [List.map_cons, List.zip_cons_cons, List.mapM_cons, hback, hbacks, allFit_cons]
        cases mantissasFit c <;> cases allFit cs <;> rfl

/-- The entries of a map. -/
theorem carries_entries {key val : DataType} {entries : List (Cell × Cell)}
    (h : ∀ e ∈ entries, Carries rt key e.1 ∧ Carries rt val e.2) :
    ∃ vs ds, (entries.mapM fun e =>
        (valueAt rt key e.1).bind fun k => (valueAt rt val e.2).map fun v => (k, v)) = .ok vs ∧
      (vs.mapM fun e =>
        (rowCell rt key e.1).bind fun k => (rowCell rt val e.2).map fun c => (k, c)) = some ds ∧
      (ds.map Prod.fst).map Cell.isNull = (entries.map Prod.fst).map Cell.isNull ∧
      (ds.map Prod.snd).map Cell.isNull = (entries.map Prod.snd).map Cell.isNull ∧
      ((vs.map fun e => (carried rt.fp e.1, carried rt.fp e.2)).mapM fun e =>
        (rowCell rt key e.1).bind fun k => (rowCell rt val e.2).map fun c => (k, c)) =
          if entriesFit entries then some ds else none := by
  induction entries with
  | nil => exact ⟨[], [], rfl, rfl, rfl, rfl, rfl⟩
  | cons e es ih =>
      obtain ⟨⟨k, dk, hwriteKey, hreadKey, hnullKey, hbackKey⟩,
        v, dv, hwriteVal, hreadVal, hnullVal, hbackVal⟩ := h e List.mem_cons_self
      obtain ⟨vs, ds, hwrites, hreads, hkeys, hvals, hbacks⟩ :=
        ih fun e' he' => h e' (List.mem_cons_of_mem _ he')
      refine ⟨(k, v) :: vs, (dk, dv) :: ds, ?_, ?_, ?_, ?_, ?_⟩
      · rw [List.mapM_cons, hwriteKey, hwrites, hwriteVal]
        rfl
      · rw [List.mapM_cons, hreadKey, hreads, hreadVal]
        rfl
      · simp only [List.map_cons, hnullKey, hkeys]
      · simp only [List.map_cons, hnullVal, hvals]
      · rw [List.map_cons, List.mapM_cons, hbackKey, hbackVal, hbacks, entriesFit_cons]
        cases mantissasFit e.1 <;> cases mantissasFit e.2 <;> cases entriesFit es <;> rfl

theorem carries_list {name : String} {child : DataType} {nullable : Bool} {items : List Cell}
    (h : ∀ c ∈ items, Carries rt child c) (hadmits : admits nullable items = true) :
    Carries rt (.list ⟨name, child, nullable⟩) (.list items) := by
  obtain ⟨vs, ds, hwrite, hread, hnull, hback⟩ := carries_items h
  rw [← admits_congr nullable hnull] at hadmits
  have hrow (ws : List Value) : rowCell rt (.list ⟨name, child, nullable⟩) (.array ws) =
      (ws.mapM fun v => rowCell rt child v).bind fun cells =>
        if admits nullable cells then some (Cell.list cells) else none := rfl
  refine ⟨.array vs, .list ds, by rw [valueAt_list, hwrite]; rfl, ?_, rfl, ?_⟩
  · rw [hrow, hread, Option.bind_some, if_pos hadmits]
  · rw [carried_array, hrow, hback, mantissasFit]
    cases allFit items with
    | true => rw [if_pos rfl, Option.bind_some, if_pos hadmits, if_pos rfl]
    | false => rfl

theorem carries_fixedSizeList {name : String} {child : DataType} {nullable : Bool}
    {items : List Cell} (h : ∀ c ∈ items, Carries rt child c)
    (hadmits : admits nullable items = true) :
    Carries rt (.fixedSizeList ⟨name, child, nullable⟩ items.length) (.list items) := by
  obtain ⟨vs, ds, hwrite, hread, hnull, hback⟩ := carries_items h
  rw [← admits_congr nullable hnull] at hadmits
  have hlen : vs.length = items.length := by
    rw [← Traverse.length_of_mapM hread, ← List.length_map (f := Cell.isNull), hnull,
      List.length_map]
  have hrow {ws : List Value} (hws : ws.length = items.length) :
      rowCell rt (.fixedSizeList ⟨name, child, nullable⟩ items.length) (.array ws) =
        (ws.mapM fun v => rowCell rt child v).bind fun cells =>
          if admits nullable cells then some (Cell.list cells) else none := by
    show (if ws.length = items.length then _ else none) = _
    rw [if_pos hws]
  refine ⟨.array vs, .list ds, by rw [valueAt_fixedSizeList, hwrite]; rfl, ?_, rfl, ?_⟩
  · rw [hrow hlen, hread, Option.bind_some, if_pos hadmits]
  · rw [carried_array, hrow (by rw [List.length_map, hlen]), hback, mantissasFit]
    cases allFit items with
    | true => rw [if_pos rfl, Option.bind_some, if_pos hadmits, if_pos rfl]
    | false => rfl

/-- A struct with its values under the field names keeps the names. -/
theorem carried_named (fp : FloatOps) (fields : List (Field DataType)) (vs : List Value) :
    carried fp (.map ((fields.map fun f => Value.text f.name).zip vs)) =
      .map ((fields.map fun f => Value.text f.name).zip (vs.map (carried fp))) := by
  rw [carried_map, List.zip_map_right, List.zip_map_left, List.map_map, List.map_map]
  rfl

theorem carries_struct {fields : List (Field DataType)} {cells : List Cell}
    (hnames : (fields.map Field.name).Nodup)
    (h : List.Forall₂ (fun f c => Carries rt f.dataType c) fields cells)
    (hadmits : fieldsAdmit fields cells = true) :
    Carries rt (.struct fields) (.struct cells) := by
  obtain ⟨vs, ds, hwrite, hlen, hread, hnull, hback⟩ := carries_fields h
  rw [← fieldsAdmit_congr fields hnull] at hadmits
  have hrow {ws : List Value} (hws : ws.length = fields.length) :
      rowCell rt (.struct fields) (.map ((fields.map fun f => Value.text f.name).zip ws)) =
        ((fields.zip ws).mapM fun fv => rowCell rt fv.1.dataType fv.2).bind fun cells =>
          if fieldsAdmit fields cells then some (Cell.struct cells) else none := by
    rw [← rowFields_named hnames hws]
    rfl
  refine ⟨.map ((fields.map fun f => Value.text f.name).zip vs), .struct ds, ?_, ?_, rfl, ?_⟩
  · rw [valueAt_struct, valueAtFields_eq, hwrite]
    rfl
  · rw [hrow hlen, hread, Option.bind_some, if_pos hadmits]
  · rw [carried_named, hrow (by rw [List.length_map, hlen]), hback, mantissasFit]
    cases allFit cells with
    | true => rw [if_pos rfl, Option.bind_some, if_pos hadmits, if_pos rfl]
    | false => rfl

theorem carries_map {name keyName valName : String} {key val : DataType}
    {keyNullable valNullable nullable sorted : Bool} {entries : List (Cell × Cell)}
    (h : ∀ e ∈ entries, Carries rt key e.1 ∧ Carries rt val e.2)
    (hadmits : (admits keyNullable (entries.map Prod.fst) &&
      admits valNullable (entries.map Prod.snd)) = true) :
    Carries rt (.map ⟨name, .struct [⟨keyName, key, keyNullable⟩, ⟨valName, val, valNullable⟩],
      nullable⟩ sorted) (.map entries) := by
  obtain ⟨vs, ds, hwrite, hread, hkeys, hvals, hback⟩ := carries_entries h
  rw [← admits_congr keyNullable hkeys, ← admits_congr valNullable hvals] at hadmits
  have hrow (ws : List (Value × Value)) :
      rowCell rt (.map ⟨name, .struct [⟨keyName, key, keyNullable⟩, ⟨valName, val, valNullable⟩],
        nullable⟩ sorted) (.map ws) =
      (ws.mapM fun e => (rowCell rt key e.1).bind fun k =>
        (rowCell rt val e.2).map fun c => (k, c)).bind fun cells =>
          if admits keyNullable (cells.map Prod.fst) && admits valNullable (cells.map Prod.snd) then
            some (Cell.map cells) else none := rfl
  refine ⟨.map vs, .map ds, by rw [valueAt_map, hwrite]; rfl, ?_, rfl, ?_⟩
  · rw [hrow, hread, Option.bind_some, if_pos hadmits]
  · rw [carried_map, hrow, hback, mantissasFit]
    cases entriesFit entries with
    | true => rw [if_pos rfl, Option.bind_some, if_pos hadmits, if_pos rfl]
    | false => rfl

/-- Every cell of a writable type crosses exactly if each of its mantissas does.  The
induction is over the types and their cells. -/
theorem carries (rt : Runtime) {dt : DataType} (htype : builtFrom supported dt = true) {c : Cell}
    (htyped : wellTyped dt c = true) : Carries rt dt c := by
  apply typed_induct _ _ _ _ _ _ htype htyped
  · exact carries_null
  · exact fun _ _ hscalar hsupported htyped _ => carries_leaf hscalar hsupported htyped
  · exact fun _ _ _ _ h hadmits => carries_list h hadmits
  · exact fun _ _ _ _ h hadmits => carries_fixedSizeList h hadmits
  · exact fun _ _ hnames h hadmits => carries_struct hnames h hadmits
  · exact fun _ _ _ _ _ _ _ _ _ _ h hadmits => carries_map h hadmits

/-! ## Offsets -/

/-- The value is written for some cell of the type.  Only such values have to cross. -/
def Written (rt : Runtime) (dt : DataType) (v : Value) : Prop :=
  ∃ c, wellTyped dt c = true ∧ valueAt rt dt c = .ok v

theorem written_null (dt : DataType) : Written rt dt .null :=
  ⟨.null, by cases dt <;> rfl, valueAt_null_cell rt _⟩

theorem valueAt_null {dt : DataType} {v : Value} (h : valueAt rt dt .null = .ok v) :
    v = .null := by
  rw [valueAt_null_cell] at h
  cases h
  rfl

theorem written_items {dt : DataType} {items : List Cell} {ws : List Value}
    (htyped : ∀ c ∈ items, wellTyped dt c = true)
    (h : (items.mapM fun c => valueAt rt dt c) = .ok ws) : ∀ w ∈ ws, Written rt dt w := by
  intro w hw
  obtain ⟨c, hc, hwrite⟩ := Traverse.exists_of_mem_mapM_ok h hw
  exact ⟨c, htyped c hc, hwrite⟩

theorem written_list {name : String} {child : DataType} {nullable : Bool} {v : Value}
    (h : Written rt (.list ⟨name, child, nullable⟩) v) :
    v = .null ∨ ∃ ws, v = .array ws ∧ ∀ w ∈ ws, Written rt child w := by
  obtain ⟨c, htyped, hwrite⟩ := h
  cases c <;> first
    | exact .inl (valueAt_null hwrite)
    | cases htyped
    | skip
  case list items =>
    simp only [wellTyped, Bool.and_eq_true, List.all_eq_true] at htyped
    rw [valueAt_list] at hwrite
    cases hitems : items.mapM fun c => valueAt rt child c with
    | error e => rw [hitems] at hwrite; cases hwrite
    | ok ws =>
        rw [hitems] at hwrite
        cases hwrite
        exact .inr ⟨ws, rfl, written_items htyped.1 hitems⟩

theorem written_fixedSizeList {name : String} {child : DataType} {nullable : Bool} {size : Nat}
    {v : Value} (h : Written rt (.fixedSizeList ⟨name, child, nullable⟩ size) v) :
    v = .null ∨ ∃ ws, v = .array ws ∧ ∀ w ∈ ws, Written rt child w := by
  obtain ⟨c, htyped, hwrite⟩ := h
  cases c <;> first
    | exact .inl (valueAt_null hwrite)
    | cases htyped
    | skip
  case list items =>
    simp only [wellTyped, Bool.and_eq_true, List.all_eq_true] at htyped
    rw [valueAt_fixedSizeList] at hwrite
    cases hitems : items.mapM fun c => valueAt rt child c with
    | error e => rw [hitems] at hwrite; cases hwrite
    | ok ws =>
        rw [hitems] at hwrite
        cases hwrite
        exact .inr ⟨ws, rfl, written_items htyped.2.1 hitems⟩

theorem written_map {name keyName valName : String} {key val : DataType}
    {keyNullable valNullable nullable sorted : Bool} {v : Value}
    (h : Written rt (.map ⟨name, .struct [⟨keyName, key, keyNullable⟩,
      ⟨valName, val, valNullable⟩], nullable⟩ sorted) v) :
    v = .null ∨ ∃ ws, v = .map ws ∧ ∀ e ∈ ws, Written rt key e.1 ∧ Written rt val e.2 := by
  obtain ⟨c, htyped, hwrite⟩ := h
  cases c <;> first
    | exact .inl (valueAt_null hwrite)
    | cases htyped
    | skip
  case map entries =>
    unfold wellTyped at htyped
    rw [Bool.and_eq_true, List.all_eq_true] at htyped
    rw [valueAt_map] at hwrite
    cases hentries : entries.mapM fun e =>
        (valueAt rt key e.1).bind fun k => (valueAt rt val e.2).map fun v => (k, v) with
    | error e => rw [hentries] at hwrite; cases hwrite
    | ok ws =>
        rw [hentries] at hwrite
        cases hwrite
        refine .inr ⟨ws, rfl, fun w hw => ?_⟩
        obtain ⟨e, he, hentry⟩ := Traverse.exists_of_mem_mapM_ok hentries hw
        have hboth := htyped.1 e he
        rw [Bool.and_eq_true] at hboth
        obtain ⟨k, hk, hrest⟩ := ok_of_bind hentry
        cases hval : valueAt rt val e.2 with
        | error e => rw [hval] at hrest; cases hrest
        | ok u =>
            rw [hval] at hrest
            cases hrest
            exact ⟨⟨e.1, hboth.1, hk⟩, e.2, hboth.2, hval⟩

theorem written_values {fields : List (Field DataType)} {cells : List Cell} {ws : List Value}
    (htyped : List.Forall₂ (fun f c => wellTyped f.dataType c = true) fields cells)
    (h : rowValues rt fields cells = .ok ws) :
    List.Forall₂ (fun f w => Written rt f.dataType w) fields ws := by
  induction htyped generalizing ws with
  | nil =>
      cases h
      exact .nil
  | @cons f c fs cs hc _ ih =>
      unfold rowValues at h
      rw [List.zip_cons_cons, List.mapM_cons] at h
      obtain ⟨v, hv, hrest⟩ := ok_of_bind h
      obtain ⟨vs, hvs, hcons⟩ := ok_of_bind hrest
      cases hcons
      exact .cons ⟨c, hc, hv⟩ (ih hvs)

theorem written_struct {fields : List (Field DataType)} {v : Value}
    (h : Written rt (.struct fields) v) :
    v = .null ∨ ∃ ws, v = .map ((fields.map fun f => Value.text f.name).zip ws) ∧
      List.Forall₂ (fun f w => Written rt f.dataType w) fields ws := by
  obtain ⟨c, htyped, hwrite⟩ := h
  cases c <;> first
    | exact .inl (valueAt_null hwrite)
    | cases htyped
    | skip
  case struct cells =>
    simp only [wellTyped, Bool.and_eq_true, fieldsTyped_iff] at htyped
    rw [valueAt_struct, valueAtFields_eq] at hwrite
    cases hvalues : rowValues rt fields cells with
    | error e => rw [hvalues] at hwrite; cases hwrite
    | ok ws =>
        rw [hvalues] at hwrite
        cases hwrite
        exact .inr ⟨ws, rfl, written_values htyped.1 hvalues⟩

/-- Rows that stay rows flatten to what they stay. -/
theorem flatRows_map {α : Type} {row : Value → Option (List α)} {f : Value → Value} {g : α → α}
    {vs : List Value} (h : ∀ v ∈ vs, (row (f v)).getD [] = ((row v).getD []).map g) :
    flatRows row (vs.map f) = (flatRows row vs).map g := by
  unfold flatRows
  rw [List.flatMap_map, List.map_flatMap]
  exact List.flatMap_congr h

/-- The field of a written struct is written, and crosses with it. -/
theorem fieldOf_written {fields : List (Field DataType)} (hnames : (fields.map Field.name).Nodup)
    {f : Field DataType} (hf : f ∈ fields) {v : Value} (h : Written rt (.struct fields) v) :
    Written rt f.dataType (fieldOf f.name v) ∧
      fieldOf f.name (carried rt.fp v) = carried rt.fp (fieldOf f.name v) := by
  rcases written_struct h with rfl | ⟨ws, rfl, hws⟩
  · exact ⟨written_null _, rfl⟩
  · obtain ⟨w, hmem⟩ : ∃ w, (f, w) ∈ fields.zip ws := by
      obtain ⟨i, hi, rfl⟩ := List.mem_iff_getElem.1 hf
      have hi' : i < ws.length := hws.length_eq ▸ hi
      refine ⟨ws[i], ?_⟩
      rw [← List.getElem_zip (h := by simp; omega)]
      exact List.getElem_mem _
    have hfield {us : List Value} {u : Value} (hu : (f, u) ∈ fields.zip us) :
        fieldOf f.name (.map ((fields.map fun f => Value.text f.name).zip us)) = u := by
      have hfind := find_named hnames hu (p := fun k => isKey f.name (untag k)) fun t => rfl
      show ((List.find? _ _).map Prod.snd).getD .null = u
      rw [hfind]
      rfl
    have hcarried : (f, carried rt.fp w) ∈ fields.zip (ws.map (carried rt.fp)) := by
      rw [List.zip_map_right]
      exact List.mem_map_of_mem hmem
    rw [carried_named, hfield hmem, hfield hcarried]
    exact ⟨List.forall₂_zip hws hmem, rfl⟩

/-- The rows of written lists cross as they are, and are written. -/
theorem listRows_carried {name : String} {dt : DataType} {nullable : Bool} {vs : List Value}
    (h : ∀ v ∈ vs, Written rt (.list ⟨name, dt, nullable⟩) v) :
    flatRows listRow (vs.map (carried rt.fp)) = (flatRows listRow vs).map (carried rt.fp) ∧
      ∀ w ∈ flatRows listRow vs, Written rt dt w := by
  constructor
  · -- A null row has no items on either side.
    refine flatRows_map fun v hv => ?_
    rcases written_list (h v hv) with rfl | ⟨ws, rfl, -⟩
    · rfl
    · rw [carried_array]
      rfl
  · intro w hw
    obtain ⟨v, hv, hw⟩ := List.mem_flatMap.1 hw
    rcases written_list (h v hv) with rfl | ⟨ws, rfl, hws⟩
    · cases hw
    · exact hws w hw

/-- So do those of written lists of a fixed size. -/
theorem fixedRows_carried {name : String} {dt : DataType} {nullable : Bool} {size : Nat}
    {vs : List Value} (h : ∀ v ∈ vs, Written rt (.fixedSizeList ⟨name, dt, nullable⟩ size) v) :
    flatRows (fixedRow size) (vs.map (carried rt.fp)) =
        (flatRows (fixedRow size) vs).map (carried rt.fp) ∧
      ∀ w ∈ flatRows (fixedRow size) vs, Written rt dt w := by
  constructor
  · refine flatRows_map fun v hv => ?_
    rcases written_fixedSizeList (h v hv) with rfl | ⟨ws, rfl, -⟩
    · -- A null row still takes `size` cells, all null.
      show List.replicate size Value.null = (List.replicate size Value.null).map _
      rw [List.map_replicate, carried_null]
    · rw [carried_array]
      show (if (ws.map (carried rt.fp)).length = size then _ else none).getD [] =
        ((if ws.length = size then some ws else none).getD []).map _
      rw [List.length_map]
      split_ifs <;> rfl
  · intro w hw
    obtain ⟨v, hv, hw⟩ := List.mem_flatMap.1 hw
    rcases written_fixedSizeList (h v hv) with rfl | ⟨ws, rfl, hws⟩
    · rw [List.eq_of_mem_replicate hw]
      exact written_null _
    · have hrow : fixedRow size (.array ws) = if ws.length = size then some ws else none := rfl
      rw [hrow] at hw
      split_ifs at hw
      · exact hws w hw
      · cases hw

/-- The entries of written maps cross with their keys and values. -/
theorem mapRows_carried {name keyName valName : String} {key val : DataType}
    {keyNullable valNullable nullable sorted : Bool} {vs : List Value}
    (h : ∀ v ∈ vs, Written rt (.map ⟨name, .struct [⟨keyName, key, keyNullable⟩,
      ⟨valName, val, valNullable⟩], nullable⟩ sorted) v) :
    flatRows mapRow (vs.map (carried rt.fp)) =
        (flatRows mapRow vs).map (fun e => (carried rt.fp e.1, carried rt.fp e.2)) ∧
      ∀ e ∈ flatRows mapRow vs, Written rt key e.1 ∧ Written rt val e.2 := by
  constructor
  · refine flatRows_map fun v hv => ?_
    rcases written_map (h v hv) with rfl | ⟨ws, rfl, -⟩
    · rfl
    · rw [carried_map]
      rfl
  · intro e he
    obtain ⟨v, hv, he⟩ := List.mem_flatMap.1 he
    rcases written_map (h v hv) with rfl | ⟨ws, rfl, hws⟩
    · cases he
    · exact hws e he

/-- Texts and blobs cross as they are. -/
theorem carried_sized {dt : DataType} (hsized : dt.maxOffset ≠ none) {v : Value}
    (h : Written rt dt v) : carried rt.fp v = v := by
  obtain ⟨c, htyped, hwrite⟩ := h
  cases c with
  | null =>
      rw [valueAt_null hwrite]
      exact carried_null
  | text s =>
      cases dt <;> first
        | exact absurd rfl hsized
        | (cases htyped; done)
        | (cases hwrite; rfl)
  | bytes b =>
      cases dt <;> first
        | exact absurd rfl hsized
        | (cases htyped; done)
        | (cases hwrite; rfl)
  | _ => cases dt <;> first | exact absurd rfl hsized | cases htyped

theorem bytesFit_carried {dt : DataType} {vs : List Value} (h : ∀ v ∈ vs, Written rt dt v) :
    BytesFit rt dt (vs.map (carried rt.fp)) ↔ BytesFit rt dt vs := by
  by_cases hsized : dt.maxOffset = none
  · exact iff_of_true (bytesFit_of_maxOffset hsized _) (bytesFit_of_maxOffset hsized _)
  · have hcarried : vs.map (carried rt.fp) = vs :=
      (List.map_congr_left fun v hv => carried_sized hsized (h v hv)).trans (List.map_id vs)
    rw [hcarried]

/-- Crossing the wire does not change what offsets count: neither the items of lists and maps
nor the bytes of texts and blobs. -/
theorem fits_carried {dt : DataType} (htype : builtFrom supported dt = true) {vs : List Value}
    (h : ∀ v ∈ vs, Written rt dt v) : fits rt dt (vs.map (carried rt.fp)) = fits rt dt vs := by
  -- Offsets count the rows of all lists, one after the other; those rows cross as they are.
  induction dt using DataType.induct generalizing vs with
  | scalar dt hscalar =>
      rw [fits_scalar hscalar, fits_scalar hscalar]
      exact decide_eq_decide.2 (bytesFit_carried h)
  | list child ih =>
      obtain ⟨name, dt, nullable⟩ := child
      obtain ⟨hflat, hwritten⟩ := listRows_carried h
      rw [fits, fits, hflat, ih htype hwritten, List.length_map]
  | largeList child ih => cases htype
  | fixedSizeList child size ih =>
      obtain ⟨name, dt, nullable⟩ := child
      simp only [builtFrom, Bool.and_eq_true] at htype
      obtain ⟨hflat, hwritten⟩ := fixedRows_carried h
      rw [fits, fits, hflat, ih htype.2 hwritten]
  | struct fields ih =>
      simp only [builtFrom, Bool.and_eq_true, decide_eq_true_eq, fieldsBuiltFrom_iff] at htype
      have hfield : ∀ f ∈ fields, fits rt f.dataType ((vs.map (carried rt.fp)).map (fieldOf f.name)) =
          fits rt f.dataType (vs.map (fieldOf f.name)) := by
        intro f hf
        have hwritten : ∀ w ∈ vs.map (fieldOf f.name), Written rt f.dataType w := by
          intro w hw
          obtain ⟨v, hv, rfl⟩ := List.mem_map.1 hw
          exact (fieldOf_written htype.2.1 hf (h v hv)).1
        rw [← ih f hf (htype.2.2 f hf) hwritten, List.map_map, List.map_map]
        congr 1
        exact List.map_congr_left fun v hv => (fieldOf_written htype.2.1 hf (h v hv)).2
      rw [fits, fits, Bool.eq_iff_iff, fieldsFit_iff, fieldsFit_iff]
      exact ⟨fun hall f hf => (hfield f hf).symm.trans (hall f hf),
        fun hall f hf => (hfield f hf).trans (hall f hf)⟩
  | map entries sorted ih =>
      obtain ⟨name, dt, nullable⟩ := entries
      -- Only a map with a key and a value column is built.
      unfold builtFrom at htype
      split at htype
      case h_4 keyName key keyNullable valName val valNullable nullable' sorted' hmap =>
        cases hmap
        simp only [Bool.and_eq_true] at htype
        obtain ⟨hflat, hwritten⟩ := mapRows_carried h
        have hkeys : ∀ k ∈ (flatRows mapRow vs).map Prod.fst, Written rt key k := by
          intro k hk
          obtain ⟨e, he, rfl⟩ := List.mem_map.1 hk
          exact (hwritten e he).1
        have hvals : ∀ u ∈ (flatRows mapRow vs).map Prod.snd, Written rt val u := by
          intro u hu
          obtain ⟨e, he, rfl⟩ := List.mem_map.1 hu
          exact (hwritten e he).2
        -- Keys and values are columns of their own, counted apart.
        have hkeysFit := ih _ rfl _ List.mem_cons_self htype.2.1 hkeys
        have hvalsFit := ih _ rfl _ (List.mem_cons_of_mem _ List.mem_cons_self) htype.2.2 hvals
        rw [List.map_map] at hkeysFit hvalsFit
        simp only [fits, hflat, List.length_map, List.map_map]
        rw [← hkeysFit, ← hvalsFit]
        rfl
      all_goals simp_all

/-! ## Columns -/

theorem allFit_iff {cells : List Cell} :
    allFit cells = true ↔ ∀ c ∈ cells, mantissasFit c = true := by
  induction cells with
  | nil => simp [allFit]
  | cons c cs ih => rw [allFit_cons, Bool.and_eq_true, ih, List.forall_mem_cons]

/-- The cells of the column built from the values, if it builds. -/
def loaded (rt : Runtime) (dt : DataType) (path : String) (vs : List Value) :
    Option (List Cell) :=
  ((buildColumn rt dt path vs).map Arr.cells).toOption

theorem loaded_eq {dt : DataType} (htype : builtFrom supported dt = true) (path : String)
    {vs : List Value} (hfits : fits rt dt vs = true) :
    loaded rt dt path vs = vs.mapM fun v => rowCell rt dt v :=
  (buildColumn_yields rt (supported_of_builtFrom (fun _ _ h => h) htype) path vs hfits).toOption

/-- Writing the cells of a column succeeds, and the column built from what a
MessagePack file gives back is the column built from the values themselves, failures
included, exactly when no decimal in them has an unscaled value from `-2^64` up to
`-2^63 - 1`. -/
theorem msgpack_wire_agrees_iff (rt : Runtime) (dt : DataType)
    (htype : builtFrom supported dt = true) (cells : List Cell)
    (htyped : ∀ c ∈ cells, wellTyped dt c = true) :
    ∃ vs, (cells.mapM fun c => valueAt rt dt c) = .ok vs ∧
      (fits rt dt vs = true → ∀ path,
        (loaded rt dt path (vs.map (carried rt.fp)) = loaded rt dt path vs ↔
          ∀ c ∈ cells, mantissasFit c = true)) := by
  obtain ⟨vs, ds, hwrite, hread, -, hback⟩ :=
    carries_items fun c hc => carries rt htype (htyped c hc)
  refine ⟨vs, hwrite, fun hfits path => ?_⟩
  have hfits' : fits rt dt (vs.map (carried rt.fp)) = true := by
    rw [fits_carried htype (written_items htyped hwrite), hfits]
  rw [loaded_eq htype path hfits, loaded_eq htype path hfits', hread, hback, ← allFit_iff]
  cases allFit cells <;> simp

/-- `-2^63 - 1`, the unscaled value of a `DECIMAL(38, 0)`. -/
def belowInt64 : Cell := .decimal ⟨-0x8000000000000001, by decide, by decide⟩

/-- The platform at that value: `-2^63 - 1` rounds to the float `-2^63`. -/
def roundingRuntime : Runtime :=
  { Runtime.bare with fp := { Runtime.bare.fp with ofI128 := fun _ => ⟨0xC3E0000000000000⟩ } }

/-- A `DECIMAL` that a MessagePack file loses: it loads from the CBOR item, and not
from what the MessagePack file gives back. -/
theorem decimal_lost :
    ∃ v, valueAt roundingRuntime (.decimal128 38 ⟨0, by decide, by decide⟩) belowInt64 = .ok v ∧
      loaded roundingRuntime (.decimal128 38 ⟨0, by decide, by decide⟩) "d" [v] =
        some [belowInt64] ∧
      loaded roundingRuntime (.decimal128 38 ⟨0, by decide, by decide⟩) "d"
        [carried roundingRuntime.fp v] = none := by
  refine ⟨_, rfl, ?_, ?_⟩ <;> rfl

/-- Lists of pairs of a timestamp and a decimal. -/
def pairsType : DataType :=
  .list ⟨"item", .struct [⟨"at", .timestamp .millisecond none, true⟩,
    ⟨"amount", .decimal128 38 ⟨0, by decide, by decide⟩, true⟩], true⟩

/-- An instant before the epoch with a bignum, a null and no list at all. -/
def pairsCells : List Cell :=
  [.list [.struct [.int beforeEpoch,
    .decimal ⟨-0x10000000000000001, by decide, by decide⟩], .null], .null]

theorem msgpack_wire_agrees_pairs :
    ∃ vs, (pairsCells.mapM fun c => valueAt .bare pairsType c) = .ok vs ∧
      loaded .bare pairsType "p" (vs.map (carried Runtime.bare.fp)) =
        loaded .bare pairsType "p" vs := by
  obtain ⟨vs, hwrite, hiff⟩ :=
    msgpack_wire_agrees_iff .bare pairsType (by decide) pairsCells (by decide)
  have hwritten : ∃ ws, (pairsCells.mapM fun c => valueAt .bare pairsType c) = .ok ws ∧
      fits .bare pairsType ws = true := ⟨_, rfl, by decide⟩
  obtain ⟨ws, hws, hfits⟩ := hwritten
  obtain rfl : ws = vs := Except.ok.inj (hws.symm.trans hwrite)
  exact ⟨ws, hwrite, (hiff hfits "p").2 (by decide)⟩

end VgiCbor.MsgpackWire
