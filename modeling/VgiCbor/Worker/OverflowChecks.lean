import VgiCbor.Worker.Arithmetic
import VgiCbor.Worker.ColumnRefinement

/-!
# Conversion in a build with overflow checks

Of all operations on integers in the conversion only three can overflow: the addition
of scale and exponent, the negation of their sum, and the product of two lengths.
`Overflows` says for which rows one of them does, or the items of a list outgrow
their 32-bit offsets, before a row is refused; exactly these rows make the build
panic (`conversion_safe_iff`).
-/

namespace VgiCbor.ValueOut

open MachineInt Binary64 Outcome

/-! ## Extreme exponents -/

/-- The sum has no negation in 32 bits, or is not itself a 32-bit integer.  Only for such
exponents do the checks of a debug build make a difference. -/
def Extreme (exponent : I32) (scale : Int) : Prop :=
  ¬ (-0x80000000 < exponent.val + scale ∧ exponent.val + scale < 0x80000000)

instance (exponent : I32) (scale : Int) : Decidable (Extreme exponent scale) := by
  unfold Extreme
  infer_instance

/-- The value is a decimal fraction with an exponent too far out for the scale.  No other
value reaches the addition. -/
def extreme (v : Value) (scale : I8) : Bool :=
  match decimalParts v with
  | some (_, exponent) => decide (Extreme exponent scale.val)
  | none => false

/-- A column of the type meets such a fraction in the value.  Only decimals, timestamps and
dates rescale at all. -/
def extremeIn : DataType → Value → Bool
  | .decimal128 _ s, v => extreme v s
  | .timestamp unit _, v => extreme (untagInstant v) (unitExp unit)
  | .date32, .tag t inner => t == 1 && extreme inner (unitExp .second)
  | _, _ => false

/-- The fault is a panic, and not an error that the call reports. -/
def IsPanic (e : Fault) : Prop := e.isRpc = false

variable {rt : Runtime} {path : String}

/-- An exponent that far out is refused in any build that lets it pass: the power of ten it
asks for has no room in 128 bits. -/
theorem rescaled_of_extreme {exponent : I32} {scale : I8} (h : Extreme exponent scale.val)
    (mantissa : I128) : rescaled mantissa exponent scale = none := by
  have hlarge : ∀ k : Nat, 38 < k → I128.checkedPow10 k = none := fun k hk => by
    rw [I128.checkedPow10, if_neg (by omega)]
  have hbounds := And.intro exponent.ge exponent.lt
  have hscale := And.intro scale.ge scale.lt
  have hwrap : (I32.wrap (exponent.val + scale.val)).val =
      (exponent.val + scale.val + 0x80000000) % 0x100000000 - 0x80000000 := rfl
  unfold Extreme at h
  unfold rescaled
  show (if 0 ≤ (I32.wrap (exponent.val + scale.val)).val then _ else _) = none
  by_cases hsign : 0 ≤ (I32.wrap (exponent.val + scale.val)).val
  · rw [if_pos hsign, hlarge _ (by omega), Option.bind_none]
  · rw [if_neg hsign, hlarge _ (by omega), Option.bind_none]

theorem exists_checked_i32 (operation : String) {n : Int} (hlo : -0x80000000 ≤ n)
    (hhi : n < 0x80000000) :
    ∃ x : I32, Arithmetic.checked.i32 operation n = .ok x ∧ x.val = n := by
  refine ⟨⟨n, hlo, hhi⟩, ?_, rfl⟩
  show okOr (Ranged.tryFrom _ _ n) _ = _
  rw [Ranged.tryFrom_of_mem hlo hhi]
  rfl

theorem checked_i32_overflow {operation : String} {n : Int}
    (h : ¬ (-0x80000000 ≤ n ∧ n < 0x80000000)) :
    Arithmetic.checked.i32 operation n = .error (Arithmetic.overflow operation) := by
  show okOr (Ranged.tryFrom _ _ n) _ = _
  rw [Ranged.tryFrom_eq_none_iff.2 h]
  rfl

theorem rescaleIn_checked {exponent : I32} {scale : I8} (h : ¬ Extreme exponent scale.val)
    (mantissa : I128) (dt : DataType) :
    rescaleIn .checked rt path mantissa exponent scale dt =
      rescale rt path mantissa exponent scale dt := by
  obtain ⟨hlo, hhi⟩ := not_not.1 h
  obtain ⟨shift, hadd, hshift⟩ := exists_checked_i32 "add" (Int.le_of_lt hlo) hhi
  have hwrap : I32.wrap (exponent.val + scale.val) = shift :=
    Ranged.ext_val ((I32.wrap_val_of_mem (Int.le_of_lt hlo) hhi).trans hshift.symm)
  unfold rescaleIn rescale
  rw [hadd, hwrap]
  show (if 0 ≤ shift.val then _ else _) = (if _ then _ else _)
  by_cases hsign : 0 ≤ shift.val
  · rw [if_pos hsign, if_pos hsign, wrap_of_nonneg hsign]
  · obtain ⟨down, hneg, hdown⟩ := exists_checked_i32 "negate"
      (show -0x80000000 ≤ -shift.val by omega) (by omega)
    rw [if_neg hsign, if_neg hsign, hneg, ← hdown]
    show ((okOr (I128.checkedPow10 (U32.wrap down.val).val.toNat) _).bind _) = _
    rw [wrap_of_nonneg (by omega)]
    cases hpow : I128.checkedPow10 down.val.toNat with
    | none => rfl
    | some factor =>
        obtain ⟨hquotLo, hquotHi⟩ := tdiv_checkedPow10_mem hpow mantissa
        have hquot : I128.wrap (mantissa.val.tdiv factor.val) = ⟨_, hquotLo, hquotHi⟩ :=
          Ranged.ext_val (I128.wrap_val_of_mem hquotLo hquotHi)
        show (if _ then _ else okOr (Ranged.tryFrom _ _ _) _) = (if _ then _ else _)
        rw [Ranged.tryFrom_of_mem hquotLo hquotHi, hquot]
        rfl

theorem rescaleIn_extreme {exponent : I32} {scale : I8} (h : Extreme exponent scale.val)
    (mantissa : I128) (dt : DataType) :
    ∃ e, rescaleIn .checked rt path mantissa exponent scale dt = .error e ∧ IsPanic e := by
  by_cases hsum : -0x80000000 ≤ exponent.val + scale.val ∧ exponent.val + scale.val < 0x80000000
  · -- The sum is `i32::MIN`.
    unfold Extreme at h
    unfold rescaleIn
    obtain ⟨shift, hadd, hshift⟩ := exists_checked_i32 "add" hsum.1 hsum.2
    rw [hadd]
    refine ⟨Arithmetic.overflow "negate", ?_, rfl⟩
    show (if 0 ≤ shift.val then _ else _) = _
    rw [if_neg (by omega), checked_i32_overflow (by omega)]
    rfl
  · unfold rescaleIn
    rw [checked_i32_overflow hsum]
    exact ⟨_, rfl, rfl⟩

theorem not_extreme_wholeNumber (scale : I8) : ¬ Extreme wholeNumber scale.val := by
  have hscale := And.intro scale.ge scale.lt
  have hzero : wholeNumber.val = 0 := rfl
  unfold Extreme
  omega

/-! ## Scalars -/

/-- A run with overflow checks that panics on an extreme value, where nothing is specified,
and otherwise computes the specification. -/
abbrev PanicsAt {α : Type} (path : String) (x : Except Fault α) (overflows : Bool)
    (o : Option α) : Prop :=
  Ends (NamesColumn path) IsPanic x (o.isSome = true) (overflows = true) (o = some ·)

theorem rescaleIn_panicsAt (mantissa : I128) (exponent : I32) (scale : I8) (dt : DataType) :
    PanicsAt path (rescaleIn .checked rt path mantissa exponent scale dt)
      (decide (Extreme exponent scale.val)) (rescaled mantissa exponent scale) := by
  apply Ends.of_computes
  · intro h
    exact ⟨rescaled_of_extreme (of_decide_eq_true h) mantissa,
      rescaleIn_extreme (of_decide_eq_true h) mantissa dt⟩
  · intro h
    rw [rescaleIn_checked fun hextreme => h (decide_eq_true hextreme)]
    exact rescale_reports mantissa exponent scale dt

/-- An integer is scaled without an overflow, since its exponent is zero and the scale is
small. -/
theorem rescaleIn_wholeNumber (n : I128) (scale : I8) (dt : DataType) :
    PanicsAt path (rescaleIn .checked rt path n wholeNumber scale dt) false
      (rescaled n wholeNumber scale) := by
  rw [← decide_eq_false (not_extreme_wholeNumber scale)]
  exact rescaleIn_panicsAt n wholeNumber scale dt

theorem decimalIn_panicsAt (v : Value) (scale : I8) (dt : DataType) :
    PanicsAt path (decimalIn .checked rt path v scale dt) (extreme v scale)
      (decimalOf rt.fp v scale) := by
  have hreports : Reports path (decimalAt rt path v scale dt) (decimalOf rt.fp v scale) :=
    decimalAt_reports v scale dt
  unfold decimalIn decimalOf exactNumber extreme
  unfold decimalOf exactNumber at hreports
  cases hparts : decimalParts v with
  | some parts => exact rescaleIn_panicsAt parts.1 parts.2 scale dt
  | none =>
      rw [hparts] at hreports
      cases hnumber : Bignum.fromValue v with
      | some n => exact rescaleIn_wholeNumber n scale dt
      | none =>
          rw [hnumber] at hreports
          exact Ends.of_computes (fun h => by cases h) fun _ => hreports

theorem timestampIn_panicsAt (v : Value) (unit : TimeUnit) (dt : DataType) :
    PanicsAt path (timestampIn .checked rt path v unit dt)
      (extreme (untagInstant v) (unitExp unit)) (timestampOf rt.fp v unit) := by
  have hreports : Reports path (timestampAt rt path v unit dt) (timestampOf rt.fp v unit) :=
    timestampAt_reports v unit dt
  simp only [timestampIn, timestampOf, exactNumber, extreme]
  unfold timestampOf exactNumber at hreports
  cases hparts : decimalParts (untagInstant v) with
  | some parts =>
      apply (rescaleIn_panicsAt parts.1 parts.2 (unitExp unit) dt).bind_computes
      exact fun n _ => okOr_reports _ _
  | none =>
      rw [hparts] at hreports
      cases hnumber : Bignum.fromValue (untagInstant v) with
      | some n =>
          apply (rescaleIn_wholeNumber n (unitExp unit) dt).bind_computes
          exact fun n _ => okOr_reports _ _
      | none =>
          rw [hnumber] at hreports
          exact Ends.of_computes (fun h => by cases h) fun _ => hreports

theorem daysIn_panicsAt (v : Value) :
    PanicsAt path (daysIn .checked rt path v) (extremeIn .date32 v) (daysOf rt.fp v) := by
  have hcount (v : Value) : PanicsAt path (dayCount path v) false
      ((asI128 v).map fun n => I64.wrap n.val) :=
    Ends.of_computes (fun h => by cases h) fun _ => dayCount_reports v
  cases v with
  | tag t inner =>
      by_cases ht : t = 1
      · subst ht
        exact (timestampIn_panicsAt (.tag 1 inner) .second .date32).map_computes _
      · have hfalse : extremeIn .date32 (.tag t inner) = false := by simp [extremeIn, ht]
        rw [hfalse, daysIn, daysOf, if_neg ht, if_neg ht]
        exact hcount _
  | _ => exact hcount _

theorem dateIn_panicsAt (v : Value) :
    PanicsAt path (dateIn .checked rt path v) (extremeIn .date32 v) (leafCell rt .date32 v) := by
  apply (daysIn_panicsAt v).bind_computes
  intro days _
  exact (okOr_reports _ _).map _

/-- Every scalar conversion panics at the extreme values of its type, and only there. -/
theorem leafIn_panicsAt {dt : DataType} {convert : Value → Except Fault Cell}
    (h : leafIn .checked rt path dt = some convert) (v : Value) :
    PanicsAt path (convert v) (extremeIn dt v) (leafCell rt dt v) := by
  cases dt with
  | date32 =>
      cases h
      exact dateIn_panicsAt v
  | timestamp unit tz =>
      cases h
      exact (timestampIn_panicsAt v unit _).map_computes _
  | decimal128 p s =>
      cases h
      exact (decimalIn_panicsAt v s _).map_computes _
  | _ =>
      simp only [leafIn] at h
      exact Ends.of_computes (fun hextreme => by cases hextreme) fun _ => leafAt_reports h v

/-- A scalar conversion makes no null cells.  Null rows are kept from it by `nullable`. -/
theorem isNull_of_leafCell {dt : DataType} {v : Value} {c : Cell} (h : leafCell rt dt v = some c) :
    c.isNull = false := by
  have hmap {α : Type} {o : Option α} {f : α → Cell} (hf : ∀ a, (f a).isNull = false)
      (h : o.map f = some c) : c.isNull = false := by
    obtain ⟨a, -, rfl⟩ := Option.map_eq_some_iff.1 h
    exact hf a
  have hbind {α : Type} {o : Option α} {f : α → Option Cell}
      (hf : ∀ a, f a = some c → c.isNull = false) (h : o.bind f = some c) : c.isNull = false := by
    obtain ⟨a, -, ha⟩ := Option.bind_eq_some_iff.1 h
    exact hf a ha
  cases dt with
  | boolean =>
      simp only [leafCell] at h
      split at h <;> cases h
      rfl
  | int t => exact hbind (fun a => hmap fun _ => rfl) h
  | float32 => exact hmap (fun _ => rfl) h
  | float64 => exact hmap (fun _ => rfl) h
  | date32 => exact hbind (fun a => hmap fun _ => rfl) h
  | time32 unit => cases unit <;> exact hbind (fun a => hmap fun _ => rfl) h
  | time64 unit => cases unit <;> exact hbind (fun a => hmap fun _ => rfl) h
  | timestamp unit tz => exact hmap (fun _ => rfl) h
  | decimal128 p s => exact hmap (fun _ => rfl) h
  | utf8 => cases h; rfl
  | largeUtf8 => cases h; rfl
  | binary => exact hmap (fun _ => rfl) h
  | largeBinary => exact hmap (fun _ => rfl) h
  | fixedSizeBinary width =>
      refine hbind (fun b hb => ?_) h
      split_ifs at hb
      cases hb
      rfl
  | _ => cases h

/-- The cell of the value in a column of the type is null: the value is, or the column has no
other cells. -/
def nullIn (dt : DataType) (v : Value) : Bool := dt.isNullType || isNull v

/-! ## Instants -/

/-- The payload is a decimal fraction whose exponent has no room for nine more digits.  An
instant is split at nanoseconds, so nine is what the code adds. -/
def extremeInstant (inner : Value) : Bool :=
  match decimalParts inner with
  | some (_, exponent) => decide (0x80000000 ≤ exponent.val + 9)
  | none => false

theorem scaleToNanosIn_checked (mantissa : I128) {exponent : I32}
    (h : exponent.val + 9 < 0x80000000) :
    Msgpack.scaleToNanosIn .checked mantissa exponent =
      .ok (Msgpack.scaleToNanos mantissa exponent) := by
  have hge := exponent.ge
  obtain ⟨shift, hadd, hshift⟩ := exists_checked_i32 "add" (by omega) h
  have hwrap : I32.wrap (exponent.val + 9) = shift :=
    Ranged.ext_val ((I32.wrap_val_of_mem (by omega) h).trans hshift.symm)
  unfold Msgpack.scaleToNanosIn Msgpack.scaleToNanos
  rw [hadd, hwrap]
  show (if 0 ≤ shift.val then _ else _) = Except.ok (if _ then _ else _)
  by_cases hsign : 0 ≤ shift.val
  · rw [if_pos hsign, if_pos hsign, wrap_of_nonneg hsign]
  · obtain ⟨down, hneg, hdown⟩ := exists_checked_i32 "negate"
      (show -0x80000000 ≤ -shift.val by omega) (by omega)
    rw [if_neg hsign, if_neg hsign, hneg, ← hdown]
    show Option.elim (I128.checkedPow10 (U32.wrap down.val).val.toNat) _ _ = _
    rw [wrap_of_nonneg (by omega)]
    cases hpow : I128.checkedPow10 down.val.toNat with
    | none => rfl
    | some divisor =>
        obtain ⟨hquotLo, hquotHi⟩ := tdiv_checkedPow10_mem hpow mantissa
        show Except.map some (okOr (Ranged.tryFrom _ _ _) _) = _
        rw [Option.bind_some, Ranged.tryFrom_of_mem hquotLo hquotHi]
        rfl

/-- With overflow checks an instant is split as without, or its extreme exponent panics.  The
sum can leave 32 bits on one side only. -/
theorem instantPartsIn_checked (fp : FloatOps) (inner : Value) :
    Msgpack.instantPartsIn .checked fp inner =
      if extremeInstant inner then .error (Arithmetic.overflow "add")
      else .ok (Msgpack.instantParts fp inner) := by
  unfold extremeInstant Msgpack.instantPartsIn Msgpack.instantParts decimalParts
  cases hparts : Msgpack.decimalParts inner with
  | none => simp
  | some parts =>
      by_cases h : 0x80000000 ≤ parts.2.val + 9
      · have hadd : Msgpack.scaleToNanosIn .checked parts.1 parts.2 =
            .error (Arithmetic.overflow "add") := by
          rw [Msgpack.scaleToNanosIn, checked_i32_overflow (by omega)]
          rfl
        simp only [hadd, decide_eq_true h, if_true]
        rfl
      · have hscale := scaleToNanosIn_checked parts.1 (Int.not_le.1 h)
        simp only [hscale, decide_eq_false h]
        rfl

end VgiCbor.ValueOut
