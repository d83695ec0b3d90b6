import VgiCbor.Worker.ColumnRefinement

/-!
# Integer targets

An integer-backed column takes the CBOR integers of its own range and refuses the
others.  The integer columns narrow once, from 128 bits; a date column first truncates
to 64 bits, so the integers closest to either end of the CBOR range wrap around to days
near the epoch.
-/

namespace VgiCbor.ValueOut

open MachineInt Outcome

variable {rt : Runtime} {path : String}

/-- The native range of an integer-backed column type: its least value, and one past its
greatest. -/
def nativeRange : DataType → Option (Int × Int)
  | .int t => some (t.lo, t.hi)
  | .date32 => some (-0x80000000, 0x80000000)
  | _ => none

/-- A value under a stack of tags, the first one outermost. -/
def tagged (tags : List UInt64) (v : Value) : Value := tags.foldr Value.tag v

/-- The column of one value is the cell `n` when `n` is in range, and an error
otherwise. -/
def TakesInRange (rt : Runtime) (dt : DataType) (path : String) (lo hi : Int) (v : Value)
    (n : Integer) : Prop :=
  (lo ≤ n.val ∧ n.val < hi →
    ∃ column, buildColumn rt dt path [v] = .ok column ∧ column.cells = [.int n]) ∧
  (¬ (lo ≤ n.val ∧ n.val < hi) →
    ∃ e, buildColumn rt dt path [v] = .error e ∧ e.isRpc = true)

/-! ## One scalar row -/

theorem untag_tagged_integer (tags : List UInt64) (n : Integer) :
    untag (tagged tags (.integer n)) = .integer n := by
  induction tags with
  | nil => rfl
  | cons t tags ih => exact ih

theorem asI128_tagged_integer (tags : List UInt64) (n : Integer) :
    asI128 (tagged tags (.integer n)) = some n.widen := by
  rw [asI128, untag_tagged_integer]

/-- A scalar column takes integers in range exactly if its conversion does. -/
theorem takesInRange_iff {dt : DataType} (hscalar : dt.isNested = false)
    (hsupported : supported dt = true) (htype : dt.isNullType = false)
    (hmax : dt.maxOffset = none) {v : Value} (hvalue : isNull v = false) (lo hi : Int)
    (n : Integer) :
    TakesInRange rt dt path lo hi v n ↔
      (lo ≤ n.val ∧ n.val < hi → leafCell rt dt v = some (.int n)) ∧
        (¬ (lo ≤ n.val ∧ n.val < hi) → leafCell rt dt v = none) := by
  have hbuild : Yields ((buildColumn rt dt path [v]).map Arr.cells) _ :=
    buildColumn_scalar hscalar hsupported htype hmax hvalue
  unfold TakesInRange
  rcases hbuild.of_map with ⟨column, hrun, hcell⟩ | ⟨e, hrun, hrpc, hcell⟩
  · obtain ⟨c, hc, hcells⟩ := Option.map_eq_some_iff.1 hcell
    rw [hrun, hc]
    simp [← hcells]
  · rw [hrun, Option.map_eq_none_iff.1 hcell]
    simp [hrpc]

/-! ## The conversions -/

theorem isNull_tagged_integer (tags : List UInt64) (n : Integer) :
    isNull (tagged tags (.integer n)) = false := by
  rw [isNull, untag_tagged_integer]

theorem leafCell_int (t : IntType) (tags : List UInt64) (n : Integer) :
    leafCell rt (.int t) (tagged tags (.integer n)) =
      if t.lo ≤ n.val ∧ n.val < t.hi then some (.int n) else none := by
  rw [leafCell, asI128_tagged_integer, Option.bind_some, toNative, Ranged.widen_val]
  by_cases hrange : t.lo ≤ n.val ∧ n.val < t.hi
  · rw [if_pos hrange, if_pos hrange, Ranged.tryFrom_val, Option.map_some]
  · rw [if_neg hrange, if_neg hrange, Option.map_none]

/-- Without a tag 1 on the outside a date is a day count, truncated to 64 bits.  The range
check comes after the truncation. -/
theorem daysOf_tagged_integer {tags : List UInt64} (htags : ∀ t ∈ tags, t ≠ 1) (n : Integer) :
    daysOf rt.fp (tagged tags (.integer n)) = some (I64.wrap n.val) := by
  have hcount := asI128_tagged_integer tags n
  cases tags with
  | nil => rfl
  | cons t tags =>
      have htag : t ≠ 1 := htags t List.mem_cons_self
      show daysOf rt.fp (.tag t (tagged tags (.integer n))) = _
      rw [daysOf, if_neg htag]
      rw [show Value.tag t (tagged tags (.integer n)) = tagged (t :: tags) (.integer n) from rfl,
        hcount, Option.map_some, Ranged.widen_val]

theorem leafCell_date {tags : List UInt64} (htags : ∀ t ∈ tags, t ≠ 1) (n : Integer) :
    leafCell rt .date32 (tagged tags (.integer n)) =
      (Ranged.tryFrom _ _ (I64.wrap n.val).val : Option I32).map fun d => .int d.widen := by
  rw [leafCell, daysOf_tagged_integer htags, Option.bind_some]

/-- The integers that truncate to a day count although they are none: those within 2^31 of
either end of the CBOR range. -/
theorem wraps_iff (n : Integer) :
    (-0x80000000 ≤ (I64.wrap n.val).val ∧ (I64.wrap n.val).val < 0x80000000 ∧
        ¬ (-0x80000000 ≤ n.val ∧ n.val < 0x80000000)) ↔
      ¬ (-0x10000000000000000 + 0x80000000 ≤ n.val ∧
        n.val < 0x10000000000000000 - 0x80000000) := by
  have hge := n.ge
  have hlt := n.lt
  simp only [I64.wrap]
  omega

/-! ## The exact band -/

/-- Every integer-backed column takes exactly the integers of its range and refuses all
others, bare or tagged, if and only if it is not a date column or the integer is not
within `2^31` of an end of the CBOR range. -/
theorem integer_targets_iff (rt : Runtime) (path : String) {dt : DataType} {lo hi : Int}
    (hrange : nativeRange dt = some (lo, hi)) {tags : List UInt64} (htags : ∀ t ∈ tags, t ≠ 1)
    (n : Integer) :
    TakesInRange rt dt path lo hi (tagged tags (.integer n)) n ↔
      (dt = .date32 → -0x10000000000000000 + 0x80000000 ≤ n.val ∧
        n.val < 0x10000000000000000 - 0x80000000) := by
  have hnull := isNull_tagged_integer tags n
  have hband := wraps_iff n
  cases dt with
  | int t =>
      cases hrange
      rw [takesInRange_iff rfl rfl rfl rfl hnull, leafCell_int]
      constructor
      · intro _ hdate
        cases hdate
      · intro _
        exact ⟨fun hin => if_pos hin, fun hout => if_neg hout⟩
  | date32 =>
      cases hrange
      -- A day count in range survives the truncation.
      have hkeep : -0x80000000 ≤ n.val ∧ n.val < 0x80000000 → (I64.wrap n.val).val = n.val :=
        fun hin => I64.wrap_val_of_mem (by omega) (by omega)
      rw [takesInRange_iff rfl rfl rfl rfl hnull, leafCell_date htags]
      by_cases hmem : -0x80000000 ≤ (I64.wrap n.val).val ∧ (I64.wrap n.val).val < 0x80000000
      · rw [Ranged.tryFrom_of_mem hmem.1 hmem.2, Option.map_some]
        constructor
        · rintro ⟨-, hout⟩ -
          by_contra hwrapped
          exact absurd (hout (hband.2 hwrapped).2.2) (by simp)
        · intro hinside
          constructor
          · intro hin
            rw [Option.some.injEq, Cell.int.injEq]
            exact Ranged.ext_val (hkeep hin)
          · intro hout
            exact absurd (hinside rfl) (hband.1 ⟨hmem.1, hmem.2, hout⟩)
      · rw [Ranged.tryFrom_eq_none_iff.2 hmem, Option.map_none]
        constructor
        · intro _ _
          by_contra hwrapped
          exact hmem ⟨(hband.2 hwrapped).1, (hband.2 hwrapped).2.1⟩
        · intro _
          exact ⟨fun hin => absurd (by rw [hkeep hin]; exact hin) hmem, fun _ => rfl⟩
  | _ => cases hrange

/-- A small integer under two tags lands in an 8-bit column, and its neighbour outside
does not. -/
theorem integer_targets_iff_tagged :
    TakesInRange .bare (.int .int8) "v" (-0x80) 0x80
      (tagged [55799, 100] (.integer ⟨-0x81, by decide, by decide⟩))
      ⟨-0x81, by decide, by decide⟩ :=
  (integer_targets_iff .bare "v" rfl (by simp) _).2 fun h => by cases h

/-- The greatest CBOR integer is loaded into a date column as the day before the epoch. -/
theorem date_wraps :
    nativeRange .date32 = some (-0x80000000, 0x80000000) ∧
      (∃ column, buildColumn .bare .date32 "d" [.integer ⟨0xFFFFFFFFFFFFFFFF, by decide, by decide⟩] =
        .ok column ∧ column.cells = [.int ⟨-1, by decide, by decide⟩]) ∧
      ¬ TakesInRange .bare .date32 "d" (-0x80000000) 0x80000000
        (tagged [] (.integer ⟨0xFFFFFFFFFFFFFFFF, by decide, by decide⟩))
        ⟨0xFFFFFFFFFFFFFFFF, by decide, by decide⟩ := by
  refine ⟨rfl, ⟨_, rfl, rfl⟩, fun h => ?_⟩
  obtain ⟨e, herror, -⟩ := h.2 (by decide)
  cases herror

end VgiCbor.ValueOut
