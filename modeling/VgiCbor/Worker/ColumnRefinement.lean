import VgiCbor.Worker.RowSemantics

/-!
# The column builder computes the row semantics

A nested column stores one row after the other in a flat child and reads them
back under its validity mask.  Building a column succeeds exactly when every row
converts on its own, and its cells are the cells of the rows
(`buildColumn_yields`).
-/

namespace VgiCbor.ValueOut

open MachineInt Outcome ArrayLibrary

variable {rt : Runtime} {path : String}

/-! ## Validity masks -/

theorem validity_nullBuffer (values : List Value) :
    Arr.validity values.length (nullBuffer values) = values.map fun v => !isNull v := by
  unfold nullBuffer Arr.validity
  by_cases hany : values.any isNull = true
  · rw [if_pos hany, Option.getD_some]
  · rw [if_neg hany, Option.getD_none]
    symm
    rw [List.eq_replicate_iff]
    refine ⟨List.length_map _, fun b hb => ?_⟩
    obtain ⟨v, hv, rfl⟩ := List.mem_map.1 hb
    have hnull : isNull v ≠ true := fun h => hany (List.any_eq_true.2 ⟨v, hv, h⟩)
    simp [hnull]

theorem covers_nullBuffer (values : List Value) : Covers (nullBuffer values) values.length := by
  unfold nullBuffer
  split
  · exact List.length_map _
  · trivial

/-- Reading under the mask: null rows are null cells, the others keep theirs.  A mask that is
left out, since no row is null, reads the same. -/
theorem maskCells_nullBuffer {values : List Value} {cells : List Cell}
    (h : cells.length = values.length) :
    maskCells (nullBuffer values) cells =
      List.zipWith (fun v c => if isNull v then .null else c) values cells := by
  have hmask : maskCells (some (values.map fun v => !isNull v)) cells =
      List.zipWith (fun v c => if isNull v then .null else c) values cells := by
    rw [maskCells, List.zipWith_map_left]
    congr 1
    funext v c
    cases isNull v <;> rfl
  unfold nullBuffer
  by_cases hany : values.any isNull = true
  · rw [if_pos hany, hmask]
  · rw [if_neg hany, maskCells]
    induction values generalizing cells with
    | nil => simpa using h
    | cons v vs ih =>
        cases cells with
        | nil => cases h
        | cons c cs =>
            simp only [List.any_cons, Bool.or_eq_true, not_or] at hany
            have hlen : cs.length = vs.length := Nat.succ.inj h
            have hrest := ih hlen (by
              rw [maskCells, List.zipWith_map_left]
              congr 1
              funext v c
              cases isNull v <;> rfl) hany.2
            rw [List.zipWith_cons_cons, if_neg hany.1, ← hrest]

/-- How a nested column keeps its rows: `rowOf` is what it stores for a value,
`good` what its constructor admits, and `mk` the cell read back. -/
structure Stored {ρ : Type} (spec : Value → Option Cell) (rowOf : Value → Option ρ)
    (good : ρ → Bool) (mk : ρ → Cell) : Prop where
  null : ∀ v, isNull v = true → spec v = some .null ∧ ∃ r, rowOf v = some r ∧ good r = true
  row : ∀ v, isNull v = false →
    spec v = (rowOf v).bind fun r => if good r then some (mk r) else none

/-- The cells of a column kept this way. -/
theorem Stored.mapM {ρ : Type} {spec : Value → Option Cell} {rowOf : Value → Option ρ}
    {good : ρ → Bool} {mk : ρ → Cell} (h : Stored spec rowOf good mk) (values : List Value) :
    values.mapM spec = (values.mapM rowOf).bind fun rows =>
      if rows.all good then some (maskCells (nullBuffer values) (rows.map mk)) else none := by
  have hzip : values.mapM spec = (values.mapM rowOf).bind fun rows =>
      if rows.all good then
        some (List.zipWith (fun v c => if isNull v then Cell.null else c) values (rows.map mk))
      else none := by
    induction values with
    | nil => rfl
    | cons v vs ih =>
        simp only [List.mapM_cons, ih]
        cases hnull : isNull v with
        | true =>
            -- The stand-in row of a null passes, and is masked.
            obtain ⟨hspec, r, hrow, hgood⟩ := h.null v hnull
            rw [hspec, hrow]
            cases vs.mapM rowOf with
            | none => rfl
            | some rows => cases hall : rows.all good <;> simp [hall, hgood, hnull, -List.all_eq_true]
        | false =>
            rw [h.row v hnull]
            cases rowOf v with
            | none => rfl
            | some r =>
                cases hgood : good r with
                | false => cases vs.mapM rowOf <;> simp [hgood]
                | true =>
                    cases vs.mapM rowOf with
                    | none => simp [hgood]
                    | some rows => cases hall : rows.all good <;> simp [hall, hgood, hnull, -List.all_eq_true]
  rw [hzip]
  cases hrows : values.mapM rowOf with
  | none => rfl
  | some rows =>
      have hlen := Traverse.length_of_mapM hrows
      simp only [Option.bind_some]
      rw [maskCells_nullBuffer (by simpa using hlen)]

/-! ## Flattening -/

/-- The flattening loop collects the rows it is given and their running totals.  It fails at
the first row that has no items, with that row's error. -/
theorem flattenLoop_computes {benign : Fault → Prop} {α : Type}
    {items : Value → Except Fault (List α)} {o : Value → Option (List α)}
    (hitems : ∀ v, Computes benign (items v) (o v)) (values : List Value) (offsets : List I32)
    (flat : List α) :
    Computes benign (flattenLoop items values offsets flat)
      ((values.mapM o).map fun rows =>
        (offsets ++ (Segments.offsetsFrom flat.length (rows.map List.length)).tail.map
          (fun n : Nat => I32.wrap n), flat ++ rows.flatten)) := by
  induction values generalizing offsets flat with
  | nil =>
      rw [flattenLoop, List.mapM_nil]
      simpa [Segments.offsetsFrom] using Computes.ok (offsets, flat)
  | cons v vs ih =>
      have hspec : (((v :: vs).mapM o).map fun rows =>
            (offsets ++ (Segments.offsetsFrom flat.length (rows.map List.length)).tail.map
              (fun n : Nat => I32.wrap n), flat ++ rows.flatten)) =
          (o v).bind fun row => (vs.mapM o).map fun rows =>
            ((offsets ++ [I32.wrap (flat ++ row).length]) ++
              (Segments.offsetsFrom (flat ++ row).length (rows.map List.length)).tail.map
                (fun n : Nat => I32.wrap n), (flat ++ row) ++ rows.flatten) := by
        rw [List.mapM_cons]
        cases o v with
        | none => rfl
        | some row =>
            cases vs.mapM o with
            | none => rfl
            | some rows =>
                have htail := Segments.offsetsFrom_eq_cons (flat ++ row).length
                  (rows.map List.length)
                simp only [List.length_append] at htail
                simp only [Option.bind_some, Option.map_some, List.map_cons, Option.pure_def,
                  Option.bind_eq_bind, Segments.offsetsFrom, List.tail_cons, List.length_append,
                  List.flatten_cons, List.append_assoc, Option.some.injEq, Prod.mk.injEq,
                  and_true, List.append_cancel_left_eq]
                rw [htail]
                rfl
      rw [hspec, flattenLoop]
      exact (hitems v).bind fun row _ => ih _ _

/-- The loop as the columns start it. -/
theorem flattenLoop_start {benign : Fault → Prop} {α : Type}
    {items : Value → Except Fault (List α)} {o : Value → Option (List α)}
    (hitems : ∀ v, Computes benign (items v) (o v)) (values : List Value) :
    Computes benign (flattenLoop items values [⟨0, by decide, by decide⟩] [])
      ((values.mapM o).map fun rows =>
        ((Segments.offsetsFrom 0 (rows.map List.length)).map (fun n : Nat => I32.wrap n),
          rows.flatten)) := by
  have hzero : (⟨0, by decide, by decide⟩ : I32) = I32.wrap ((0 : Nat) : Int) :=
    Ranged.ext_val (I32.wrap_val_of_mem (by decide) (by decide)).symm
  have hloop := flattenLoop_computes hitems values [⟨0, by decide, by decide⟩] []
  have hspec : (fun rows : List (List α) =>
        ([(⟨0, by decide, by decide⟩ : I32)] ++
          (Segments.offsetsFrom ([] : List α).length (rows.map List.length)).tail.map
            (fun n : Nat => I32.wrap n), [] ++ rows.flatten)) =
      fun rows => ((Segments.offsetsFrom 0 (rows.map List.length)).map
        (fun n : Nat => I32.wrap n), rows.flatten) := by
    funext rows
    rw [Segments.offsetsFrom_eq_cons 0, List.map_cons, ← hzero]
    rfl
  rwa [hspec] at hloop

/-- Running totals below 2^31 survive as offsets: none of them wraps around, so they are still
in order. -/
theorem offsetBuffer_wrap {lengths : List Nat} (h : lengths.sum < 0x80000000) :
    rt.arrays.offsetBuffer ((Segments.offsetsFrom 0 lengths).map fun n : Nat => I32.wrap n) =
      .ok (Segments.offsetsFrom 0 lengths) := by
  have hwrap : ∀ n ∈ Segments.offsetsFrom 0 lengths, (I32.wrap (n : Int)).val = (n : Int) := by
    intro n hn
    have hle := (Segments.mem_offsetsFrom hn).2
    exact I32.wrap_val_of_mem (by omega) (by omega)
  have hmono : ((Segments.offsetsFrom 0 lengths).map fun n : Nat => (n : Int)).Pairwise
      (· ≤ ·) := by
    rw [List.pairwise_map]
    exact (Segments.offsetsFrom_pairwise 0 lengths).imp fun hle => by omega
  have hvals : ((Segments.offsetsFrom 0 lengths).map fun n : Nat => I32.wrap n).map Ranged.val =
      (Segments.offsetsFrom 0 lengths).map fun n : Nat => (n : Int) :=
    Traverse.map_map_congr hwrap
  have hhead : (((Segments.offsetsFrom 0 lengths).map fun n : Nat => I32.wrap n).head?.all
      fun o => 0 ≤ o.val) = true := by
    rw [Segments.offsetsFrom_eq_cons]
    rfl
  have hback : ((Segments.offsetsFrom 0 lengths).map fun n : Nat => I32.wrap n).map
      (fun o => o.val.toNat) = Segments.offsetsFrom 0 lengths :=
    (Traverse.map_map_congr fun n hn => by rw [hwrap n hn, Int.toNat_natCast]).trans
      (List.map_id' _)
  rw [rt.arrays.offsetBuffer_ok _ ⟨hhead, by rwa [hvals]⟩, hback]

/-! ## Lists -/

/-- Building a column computes the row semantics of its type, for values that stay within its
offsets.  This is what the induction over the types proves. -/
def Refines (rt : Runtime) (dt : DataType) : Prop :=
  ∀ path values, fits rt dt values = true →
    Yields ((buildColumn rt dt path values).map Arr.cells) (values.mapM (rowCell rt dt))

theorem listItems_reports (path : String) (v : Value) :
    Reports path (listItems path v) (listRow v) := by
  unfold listItems listRow itemsOf
  apply Computes.ite
  · exact fun _ => .ok []
  · intro _
    cases untag v with
    | array items => exact .ok items
    | _ => exact reports_err _

theorem stored_list (name : String) (child : DataType) (nullable : Bool) :
    Stored (rowCell rt (.list ⟨name, child, nullable⟩))
      (fun v => (listRow v).bind fun items => items.mapM (rowCell rt child))
      (admits nullable) .list where
  null v h := by
    refine ⟨rowCell_of_isNull _ h, [], ?_, ?_⟩
    · simp [listRow, h]
    · simp [admits]
  row v h := by
    simp only [rowCell, listRow, h]
    cases itemsOf v <;> rfl

theorem admits_flatten (nullable : Bool) (rows : List (List Cell)) :
    admits nullable rows.flatten = rows.all (admits nullable) := by
  induction rows with
  | nil => simp [admits]
  | cons row rows ih =>
      rw [List.all_cons, ← ih]
      cases nullable <;> simp [admits, Bool.not_or]

/-- Of the rows of a list, only nulls that the child does not admit are refused.  The other
conditions of the constructor hold of every flattened column. -/
theorem listTaken_iff (field : Field DataType) {values : List Value} {offsets : List Nat}
    {child : Arr} (hlen : offsets.length = values.length + 1)
    (hend : offsets.getLast?.getD 0 ≤ child.len) :
    ListTaken field offsets child (nullBuffer values) ↔
      admits field.nullable child.cells = true := by
  have hmask : Covers (nullBuffer values) (offsets.length - 1) := by
    rw [hlen]
    exact covers_nullBuffer values
  rw [ListTaken, admits, Bool.or_eq_true, Bool.not_eq_true']
  exact ⟨fun h => h.2.2, fun h => ⟨hend, hmask, h⟩⟩

/-- The list constructor accepts flattened rows whose nulls the child admits, and
reads them back row by row. -/
theorem tryNewList_yields (field : Field DataType) {values : List Value}
    {rows : List (List Cell)} {child : Arr} (hlen : rows.length = values.length)
    (hchild : child.cells = rows.flatten) :
    Yields ((arrow path (rt.arrays.tryNewList field
        (Segments.offsetsFrom 0 (rows.map List.length)) child (nullBuffer values))).map Arr.cells)
      (if rows.all (admits field.nullable) then
        some (maskCells (nullBuffer values) (rows.map .list)) else none) := by
  have hend : ((Segments.offsetsFrom 0 (rows.map List.length)).getLast?).getD 0 ≤ child.len := by
    rw [Segments.getLast?_offsetsFrom, Arr.len, hchild, List.length_flatten]
    simp
  have hcount : (Segments.offsetsFrom 0 (rows.map List.length)).length = values.length + 1 := by
    rw [Segments.offsetsFrom_length, List.length_map, hlen]
  have htaken := listTaken_iff field hcount hend
  have hmakes := rt.arrays.list_makes field (Segments.offsetsFrom 0 (rows.map List.length)) child
    (nullBuffer values)
  rw [← admits_flatten, ← hchild]
  by_cases hadmits : admits field.nullable child.cells = true
  · rw [hmakes.ok (htaken.2 hadmits), if_pos hadmits]
    show Yields (.ok (Arr.cells (.list _ _ _))) _
    rw [Arr.cells, hchild, Segments.slices_flatten]
    exact .ok _
  · obtain ⟨e, he⟩ := hmakes.refused fun h => hadmits (htaken.1 h)
    rw [he, if_neg hadmits]
    exact yields_err _

theorem flattenLists_yields (path : String) {values : List Value}
    (hfits : (flatRows listRow values).length < 0x80000000) :
    Yields (flattenLists rt path values) ((values.mapM listRow).map fun rows =>
      (Segments.offsetsFrom 0 (rows.map List.length), nullBuffer values, rows.flatten)) := by
  have hloop := flattenLoop_start (fun v => (listItems_reports path v).yields) values
  cases hrows : values.mapM listRow with
  | none =>
      rw [hrows] at hloop
      exact hloop.bind_none _
  | some rows =>
      rw [hrows] at hloop
      rw [flatRows_of_mapM hrows, List.length_flatten] at hfits
      unfold flattenLists
      rw [show flattenLoop (listItems path) values [⟨0, by decide, by decide⟩] [] = .ok _ from hloop]
      show Yields ((rt.arrays.offsetBuffer _).map _) _
      rw [offsetBuffer_wrap hfits]
      exact .ok _

theorem refines_list {name : String} {child : DataType} {nullable : Bool}
    (ih : Refines rt child) : Refines rt (.list ⟨name, child, nullable⟩) := by
  intro path values hfits
  simp only [fits, Bool.and_eq_true, decide_eq_true_eq] at hfits
  have hflat : Yields (flattenLists rt path values) _ := flattenLists_yields path hfits.1
  rw [(stored_list name child nullable).mapM, Traverse.mapM_bind, buildColumn]
  cases hrows : values.mapM listRow with
  | none =>
      rw [hrows] at hflat
      exact (hflat.bind_none _).map _
  | some rows =>
      rw [hrows] at hflat
      rw [show flattenLists rt path values = .ok _ from hflat, Option.bind_some]
      have hchild := ih s!"{path}[]" _ hfits.2
      rw [flatRows_of_mapM hrows, Traverse.mapM_flatten] at hchild
      show Yields (((buildColumn rt child _ _).bind _).map _) _
      rcases hchild.of_map with ⟨column, hbuild, hcells⟩ | ⟨e, hbuild, hrpc, hcells⟩
      · obtain ⟨cells, hrowCells, hflatten⟩ := Option.map_eq_some_iff.1 hcells
        rw [hbuild, hrowCells, ← Traverse.map_length_of_mapM hrowCells]
        apply tryNewList_yields ⟨name, child, nullable⟩ _ hflatten.symm
        rw [Traverse.length_of_mapM hrowCells, Traverse.length_of_mapM hrows]
      · rw [Option.map_eq_none_iff] at hcells
        rw [hbuild, hcells]
        exact ⟨e, rfl, hrpc⟩

/-! ## Fixed-size lists -/

theorem fixedItems_reports (dt : DataType) (size : Nat) (v : Value) :
    Reports path (fixedItems rt path dt size v) (fixedRow size v) := by
  unfold fixedItems fixedRow itemsOf
  apply Computes.ite
  · exact fun _ => .ok _
  · intro _
    cases untag v with
    | array items => exact Computes.ite (fun _ => .ok items) (fun _ => reports_err _)
    | _ => exact reports_err _

theorem fixedRow_length {size : Nat} {v : Value} {items : List Value}
    (h : fixedRow size v = some items) : items.length = size := by
  unfold fixedRow at h
  split at h
  · cases h
    exact List.length_replicate
  · obtain ⟨items', -, hitems⟩ := Option.bind_eq_some_iff.1 h
    split at hitems
    · cases hitems
      assumption
    · cases hitems

/-- The null rows keep their place, marked as such: the child column holds nulls for them,
which the field does not have to admit. -/
theorem stored_fixedSizeList (name : String) (child : DataType) (nullable : Bool) (size : Nat) :
    Stored (rowCell rt (.fixedSizeList ⟨name, child, nullable⟩ size))
      (fun v => ((fixedRow size v).bind fun items => items.mapM (rowCell rt child)).map
        fun cells => (isNull v, cells))
      (fun r => r.1 || admits nullable r.2) (fun r => .list r.2) where
  null v h := by
    have hrow : fixedRow size v = some (List.replicate size .null) := by simp [fixedRow, h]
    refine ⟨rowCell_of_isNull _ h, (true, List.replicate size .null), ?_, rfl⟩
    rw [hrow, Option.bind_some,
      Traverse.mapM_replicate (rowCell_of_isNull child isNull_null), Option.map_some, h]
  row v h := by
    simp only [rowCell, fixedRow, h, Bool.false_eq_true, if_false]
    cases itemsOf v with
    | none => rfl
    | some items =>
        by_cases hlen : items.length = size
        · simp only [Option.bind_some, if_pos hlen]
          cases items.mapM (rowCell rt child) <;> simp
        · simp only [Option.bind_some, if_neg hlen, Option.bind_none, Option.map_none]

/-- One row under a mask that is the same all along. -/
theorem unmasked_replicate {α : Type} (p : α → Bool) (ok : Bool) (row : List α) :
    (List.zipWith (fun ok c => ok && p c) (List.replicate row.length ok) row).any id =
      (ok && row.any p) := by
  induction row with
  | nil => simp
  | cons c cs ih =>
      rw [List.length_cons, List.replicate_succ, List.zipWith_cons_cons, List.any_cons, ih,
        List.any_cons, id]
      cases ok <;> rfl

/-- A mask stretched over rows of `size` elements looks at each row once: a null row hides all
its elements. -/
theorem unmasked_flatten {α : Type} (p : α → Bool) {size : Nat} {valid : List Bool}
    {rows : List (List α)} (hsize : ∀ row ∈ rows, row.length = size)
    (hlen : rows.length = valid.length) :
    (List.zipWith (fun ok c => ok && p c) (valid.flatMap (List.replicate size))
        rows.flatten).any id =
      (List.zipWith (fun ok row => ok && List.any row p) valid rows).any id := by
  induction valid generalizing rows with
  | nil =>
      obtain rfl : rows = [] := List.length_eq_zero_iff.1 hlen
      rfl
  | cons ok valid ih =>
      cases rows with
      | nil => cases hlen
      | cons row rows =>
          have hrow : row.length = size := hsize row (by simp)
          rw [List.flatMap_cons, List.flatten_cons, List.zipWith_append (by simp [hrow]),
            List.any_append, ih (fun r hr => hsize r (by simp [hr])) (Nat.succ.inj hlen),
            List.zipWith_cons_cons, List.any_cons, id, ← hrow, unmasked_replicate]

/-- Rejecting an unmasked null is accepting rows that are null or admitted.  The left side is
the constructor's check, the right side that of the row semantics. -/
theorem unmasked_eq_not_all (nullable : Bool) {values : List Value} {rows : List (List Cell)}
    (hlen : rows.length = values.length) :
    (!nullable && (List.zipWith (fun ok row => ok && List.any row Cell.isNull)
        (values.map fun v => !isNull v) rows).any id) =
      !(List.zipWith (fun v cells => (isNull v, cells)) values rows).all
        fun r => r.1 || admits nullable r.2 := by
  induction values generalizing rows with
  | nil => simp
  | cons v vs ih =>
      cases rows with
      | nil => cases hlen
      | cons row rows =>
          have hrest := ih (Nat.succ.inj hlen)
          simp only [List.map_cons, List.zipWith_cons_cons, List.any_cons, List.all_cons,
            Bool.not_and, ← hrest, id]
          cases nullable <;> cases isNull v <;> simp [admits]

theorem map_snd_zipWith (values : List Value) {rows : List (List Cell)} (mk : List Cell → Cell)
    (hlen : rows.length = values.length) :
    (List.zipWith (fun v cells => (isNull v, cells)) values rows).map (fun r => mk r.2) =
      rows.map mk := by
  induction values generalizing rows with
  | nil =>
      obtain rfl : rows = [] := List.length_eq_zero_iff.1 hlen
      rfl
  | cons v vs ih =>
      cases rows with
      | nil => cases hlen
      | cons row rows =>
          rw [List.zipWith_cons_cons, List.map_cons, List.map_cons, ih (Nat.succ.inj hlen)]

theorem length_flatten_sized {α : Type} {size : Nat} {rows : List (List α)}
    (hsize : ∀ row ∈ rows, row.length = size) : rows.flatten.length = rows.length * size := by
  rw [List.length_flatten, List.map_congr_left hsize]
  simp

theorem fixedSizeRows_nullBuffer {size : Nat} (hpos : 1 ≤ size) {values : List Value} {child : Arr}
    (hcount : child.len = values.length * size) :
    fixedSizeRows size child (nullBuffer values) = values.length := by
  rw [fixedSizeRows, if_neg (by omega), hcount]
  exact Nat.mul_div_cancel _ hpos

/-- Of the rows of a fixed-size list, only nulls in rows that are not null are refused. -/
theorem fixedSizeListTaken_iff (field : Field DataType) {size : Nat} (hpos : 1 ≤ size)
    {values : List Value} {child : Arr} (hcount : child.len = values.length * size) :
    FixedSizeListTaken field size child (nullBuffer values) ↔
      (field.nullable = true ∨ Arr.hasUnmaskedNulls
        ((values.map fun v => !isNull v).flatMap (List.replicate size)) child = false) := by
  simp only [FixedSizeListTaken, fixedSizeRows_nullBuffer hpos hcount, validity_nullBuffer]
  exact and_iff_right (covers_nullBuffer values)

/-- The fixed-size constructor accepts flattened rows without unmasked nulls, and
reads them back row by row. -/
theorem tryNewFixedSizeList_yields (field : Field DataType) {size : Nat} (hpos : 1 ≤ size)
    {values : List Value} {rows : List (List Cell)} {child : Arr}
    (hlen : rows.length = values.length) (hsize : ∀ row ∈ rows, row.length = size)
    (hchild : child.cells = rows.flatten) :
    Yields ((arrow path (rt.arrays.tryNewFixedSizeList field size child
        (nullBuffer values))).map Arr.cells)
      (if (List.zipWith (fun v cells => (isNull v, cells)) values rows).all
          (fun r => r.1 || admits field.nullable r.2) then
        some (maskCells (nullBuffer values) (rows.map .list)) else none) := by
  have hcount : child.len = values.length * size := by
    rw [Arr.len, hchild, length_flatten_sized hsize, hlen]
  have htaken := fixedSizeListTaken_iff field hpos hcount
  have hmakes := rt.arrays.fixedSizeList_makes field size child (nullBuffer values)
  have hcheck := unmasked_eq_not_all field.nullable hlen
  rw [← unmasked_flatten Cell.isNull hsize (by simpa using hlen), ← hchild] at hcheck
  rw [fixedSizeRows_nullBuffer hpos hcount] at hmakes
  cases hgood : (List.zipWith (fun v cells => (isNull v, cells)) values rows).all
      (fun r => r.1 || admits field.nullable r.2) with
  | true =>
      rw [hgood, Bool.not_true, Bool.and_eq_false_iff, Bool.not_eq_false'] at hcheck
      rw [hmakes.ok (htaken.2 hcheck), if_pos rfl]
      show Yields (.ok (Arr.cells (.fixedSizeList _ _ _ _))) _
      rw [Arr.cells, hchild, ← hlen, Segments.chunks_flatten hsize]
      exact .ok _
  | false =>
      rw [hgood, Bool.not_false, Bool.and_eq_true, Bool.not_eq_true'] at hcheck
      obtain ⟨e, he⟩ := hmakes.refused fun h => by
        rcases htaken.1 h with h | h
        · rw [hcheck.1] at h; cases h
        · cases hcheck.2.symm.trans h
      rw [he, if_neg (by decide)]
      exact yields_err _

theorem refines_fixedSizeList {name : String} {child : DataType} {nullable : Bool} {size : Nat}
    (hpos : 1 ≤ size) (ih : Refines rt child) :
    Refines rt (.fixedSizeList ⟨name, child, nullable⟩ size) := by
  intro path values hfits
  simp only [fits] at hfits
  have hitems : Yields (values.mapM (fixedItems rt path
      (.fixedSizeList ⟨name, child, nullable⟩ size) size)) (values.mapM (fixedRow size)) :=
    Computes.mapM fun v _ => (fixedItems_reports _ size v).yields
  rw [(stored_fixedSizeList name child nullable size).mapM, Traverse.mapM_map_with,
    Traverse.mapM_bind, buildColumn]
  cases hrows : values.mapM (fixedRow size) with
  | none =>
      rw [hrows] at hitems
      exact (hitems.bind_none _).map _
  | some rows =>
      rw [hrows] at hitems
      rw [show values.mapM (fixedItems rt path (.fixedSizeList ⟨name, child, nullable⟩ size) size) =
        .ok rows from hitems, Option.bind_some]
      -- The child column holds the items of all rows in one run.
      have hchild := ih s!"{path}[]" _ hfits
      rw [flatRows_of_mapM hrows, Traverse.mapM_flatten] at hchild
      show Yields (((buildColumn rt child _ _).bind _).map _) _
      rcases hchild.of_map with ⟨column, hbuild, hcells⟩ | ⟨e, hbuild, hrpc, hcells⟩
      · obtain ⟨cells, hrowCells, hflatten⟩ := Option.map_eq_some_iff.1 hcells
        have hlen : cells.length = values.length := by
          rw [Traverse.length_of_mapM hrowCells, Traverse.length_of_mapM hrows]
        rw [hbuild, hrowCells, Option.map_some, Option.bind_some, map_snd_zipWith values .list hlen]
        apply tryNewFixedSizeList_yields ⟨name, child, nullable⟩ hpos hlen _ hflatten.symm
        -- Every row was checked to have `size` items.
        intro row hrow
        have hmem : row.length ∈ cells.map List.length := List.mem_map_of_mem hrow
        rw [Traverse.map_length_of_mapM hrowCells] at hmem
        obtain ⟨items, hitem, hsame⟩ := List.mem_map.1 hmem
        obtain ⟨v, -, hv⟩ := Traverse.exists_of_mem_mapM hrows hitem
        rw [← hsame, fixedRow_length hv]
      · rw [Option.map_eq_none_iff] at hcells
        rw [hbuild, hcells]
        exact ⟨e, rfl, hrpc⟩

/-! ## Structs -/

/-- A row that a struct column takes: null, or a map below its tags. -/
def present (v : Value) : Option Unit := if misshapen v then none else some ()

theorem mapM_present (values : List Value) :
    values.mapM present = match values.find? misshapen with
      | some _ => none
      | none => some (values.map fun _ => ()) := by
  induction values with
  | nil => rfl
  | cons v vs ih =>
      rw [List.mapM_cons, ih]
      cases hv : misshapen v with
      | true => simp [present, hv]
      | false => cases hvs : vs.find? misshapen <;> simp [present, hv, hvs]

theorem rowFields_of_isNull (fields : List (Field DataType)) {v : Value} (h : isNull v = true) :
    rowFields rt fields v = some (fields.map fun _ => .null) := by
  have hnull : ∀ f ∈ fields, rowCell rt f.dataType (fieldOf f.name v) = some .null := by
    intro f _
    rw [fieldOf_of_isNull h]
    exact rowCell_of_isNull f.dataType isNull_null
  rw [rowFields_eq_mapM, Traverse.mapM_congr hnull]
  exact Traverse.mapM_some_map _ fields

theorem stored_struct (fields : List (Field DataType)) :
    Stored (rowCell rt (.struct fields))
      (fun v => ((present v).bind fun _ => rowFields rt fields v).map fun cells => (isNull v, cells))
      (fun r => r.1 || fieldsAdmit fields r.2) (fun r => .struct r.2) where
  null v h := by
    refine ⟨rowCell_of_isNull _ h, (true, fields.map fun _ => .null), ?_, rfl⟩
    simp [present, misshapen, h, rowFields_of_isNull fields h]
  row v h := by
    have hmap : present v = (entriesOf v).map fun _ => () := by
      simp only [present, misshapen, h, entriesOf, Value.isMap]
      cases untag v <;> rfl
    simp only [rowCell, h, hmap, Bool.false_eq_true, if_false]
    cases entriesOf v with
    | none => rfl
    | some entries => cases rowFields rt fields v <;> simp

theorem buildFields_yields (path : String) {fields : List (Field DataType)}
    (ih : ∀ f ∈ fields, Refines rt f.dataType) {values : List Value}
    (hfits : fieldsFit rt fields values = true) :
    Yields ((buildFields rt fields path values).map (List.map Arr.cells))
      (fields.mapM fun f => values.mapM fun v => rowCell rt f.dataType (fieldOf f.name v)) := by
  induction fields with
  | nil => exact .ok []
  | cons f fs ihfs =>
      obtain ⟨name, dt, nullable⟩ := f
      simp only [fieldsFit, Bool.and_eq_true] at hfits
      have hhead := ih ⟨name, dt, nullable⟩ (by simp) s!"{path}.{name}" _ hfits.1
      rw [List.mapM_map] at hhead
      have htail := ihfs (fun f hf => ih f (List.mem_cons_of_mem _ hf)) hfits.2
      rw [buildFields, List.mapM_cons]
      rcases hhead.of_map with ⟨column, hbuild, hcells⟩ | ⟨e, hbuild, hrpc, hcells⟩
      · rcases htail.of_map with ⟨columns, hbuilds, hrest⟩ | ⟨e, hbuilds, hrpc, hrest⟩
        · rw [hbuild, hbuilds, show (values.mapM fun v => rowCell rt dt (fieldOf name v)) =
            some column.cells from hcells, hrest]
          exact .ok _
        · rw [hbuild, hbuilds, show (values.mapM fun v => rowCell rt dt (fieldOf name v)) =
            some column.cells from hcells, hrest]
          exact ⟨e, rfl, hrpc⟩
      · rw [hbuild, show (values.mapM fun v => rowCell rt dt (fieldOf name v)) = none from hcells]
        exact ⟨e, rfl, hrpc⟩

/-- Adding one field to rows that are already checked. -/
theorem unmasked_cons (f : Field DataType) (fs : List (Field DataType)) {values : List Value}
    {column : List Cell} {rows : List (List Cell)} (hcolumn : column.length = values.length)
    (hrows : rows.length = values.length) :
    (List.zipWith (fun v cells => (isNull v, cells)) values
        (List.zipWith List.cons column rows)).all (fun r => r.1 || fieldsAdmit (f :: fs) r.2) =
      (!(!f.nullable && (List.zipWith (fun ok c => ok && Cell.isNull c)
          (values.map fun v => !isNull v) column).any id) &&
        (List.zipWith (fun v cells => (isNull v, cells)) values rows).all
          fun r => r.1 || fieldsAdmit fs r.2) := by
  induction values generalizing column rows with
  | nil => simp
  | cons v vs ih =>
      cases column with
      | nil => cases hcolumn
      | cons c cs =>
          cases rows with
          | nil => cases hrows
          | cons row rows =>
              have hrest := ih (Nat.succ.inj hcolumn) (Nat.succ.inj hrows)
              simp only [List.zipWith_cons_cons, List.all_cons, hrest, List.map_cons,
                List.any_cons, id]
              generalize (List.zipWith (fun ok c => ok && Cell.isNull c)
                (vs.map fun v => !isNull v) cs).any id = later
              generalize (List.zipWith (fun v cells => (isNull v, cells)) vs rows).all
                (fun r => r.1 || fieldsAdmit fs r.2) = others
              have hfields : fieldsAdmit (f :: fs) (c :: row) =
                  ((f.nullable || !c.isNull) && fieldsAdmit fs row) := rfl
              rw [hfields]
              generalize fieldsAdmit fs row = admitted
              cases f.nullable <;> cases isNull v <;> cases c.isNull <;> cases later <;>
                cases others <;> cases admitted <;> rfl

/-- Rejecting a field with unmasked nulls is accepting rows that are null or whose
fields all admit their cells. -/
theorem unmasked_fields {fields : List (Field DataType)} {values : List Value}
    (columns : List (List Cell)) (hlen : columns.length = fields.length)
    (hcolumns : ∀ c ∈ columns, c.length = values.length) :
    ((fields.zip columns).any fun fc => !fc.1.nullable &&
        (List.zipWith (fun ok c => ok && Cell.isNull c)
          (values.map fun v => !isNull v) fc.2).any id) =
      !(List.zipWith (fun v cells => (isNull v, cells)) values
          (Segments.toRows values.length columns)).all fun r => r.1 || fieldsAdmit fields r.2 := by
  induction fields generalizing columns with
  | nil =>
      obtain rfl : columns = [] := List.length_eq_zero_iff.1 hlen
      have hall : (List.zipWith (fun v cells => (isNull v, cells)) values
          (Segments.toRows values.length [])).all
            (fun r => r.1 || fieldsAdmit ([] : List (Field DataType)) r.2) = true := by
        rw [List.all_eq_true]
        intro r _
        simp [fieldsAdmit]
      rw [hall]
      rfl
  | cons f fs ih =>
      cases columns with
      | nil => cases hlen
      | cons c cs =>
          have hcs : ∀ c' ∈ cs, c'.length = values.length :=
            fun c' h => hcolumns c' (List.mem_cons_of_mem _ h)
          rw [List.zip_cons_cons, List.any_cons, ih cs (Nat.succ.inj hlen) hcs, Segments.toRows,
            unmasked_cons f fs (hcolumns c (by simp)) (Segments.toRows_length hcs), Bool.not_and,
            Bool.not_not]

/-- Of the columns of a struct, only nulls in rows that are not null are refused.  The mask of
the struct hides the others. -/
theorem structTaken_iff {fields : List (Field DataType)} {values : List Value}
    {columns : List Arr} (hne : columns ≠ []) (hlen : fields.length = columns.length)
    (hcolumns : ∀ c ∈ columns, c.len = values.length) :
    StructTaken fields columns (nullBuffer values) ↔ ∀ fc ∈ fields.zip columns,
      fc.1.nullable = true ∨
        Arr.hasUnmaskedNulls (values.map fun v => !isNull v) fc.2 = false := by
  rw [StructTaken, rowsOf_eq hne hcolumns, validity_nullBuffer]
  exact ⟨fun h => h.2.2.2.2, fun h => ⟨hne, hlen, hcolumns, covers_nullBuffer values, h⟩⟩

/-- The struct constructor accepts columns without unmasked nulls, and reads them
back row by row. -/
theorem tryNewStruct_yields {fields : List (Field DataType)} (hne : fields ≠ [])
    {values : List Value} {columns : List Arr} (hlen : columns.length = fields.length)
    (hcolumns : ∀ c ∈ columns, c.cells.length = values.length) :
    Yields ((arrow path (rt.arrays.tryNewStruct fields columns (nullBuffer values))).map Arr.cells)
      (if (List.zipWith (fun v cells => (isNull v, cells)) values
          (Segments.toRows values.length (columns.map Arr.cells))).all
          (fun r => r.1 || fieldsAdmit fields r.2) then
        some (maskCells (nullBuffer values)
          ((Segments.toRows values.length (columns.map Arr.cells)).map .struct))
      else none) := by
  have hsome : columns ≠ [] := fun h => hne (List.length_eq_zero_iff.1 (by rw [← hlen, h]; rfl))
  have htaken := structTaken_iff hsome hlen.symm hcolumns
  have hmakes := rt.arrays.struct_makes fields columns (nullBuffer values)
  -- The check walks the columns, the specification the rows; `unmasked_fields` relates them.
  have hcheck := unmasked_fields (columns.map Arr.cells) (by simpa using hlen)
    (by simpa using hcolumns)
  rw [List.zip_map_right, List.any_map] at hcheck
  rw [rowsOf_eq hsome hcolumns] at hmakes
  cases hgood : (List.zipWith (fun v cells => (isNull v, cells)) values
      (Segments.toRows values.length (columns.map Arr.cells))).all
        (fun r => r.1 || fieldsAdmit fields r.2) with
  | true =>
      rw [hgood, Bool.not_true, List.any_eq_false] at hcheck
      have hfields : ∀ fc ∈ fields.zip columns, fc.1.nullable = true ∨
          Arr.hasUnmaskedNulls (values.map fun v => !isNull v) fc.2 = false := by
        intro fc hfc
        have hfield : ¬ (!fc.1.nullable &&
            Arr.hasUnmaskedNulls (values.map fun v => !isNull v) fc.2) = true := hcheck fc hfc
        rwa [Bool.not_eq_true, Bool.and_eq_false_iff, Bool.not_eq_false'] at hfield
      rw [hmakes.ok (htaken.2 hfields), if_pos rfl]
      show Yields (.ok (Arr.cells (.struct _ _ _))) _
      rw [Arr.cells, Arr.columnCells_eq_map]
      exact .ok _
  | false =>
      rw [hgood, Bool.not_false, List.any_eq_true] at hcheck
      obtain ⟨fc, hfc, hunmasked⟩ := hcheck
      have hfield : (!fc.1.nullable &&
          Arr.hasUnmaskedNulls (values.map fun v => !isNull v) fc.2) = true := hunmasked
      rw [Bool.and_eq_true, Bool.not_eq_true'] at hfield
      obtain ⟨e, he⟩ := hmakes.refused fun h => by
        rcases htaken.1 h fc hfc with h | h
        · rw [hfield.1] at h; cases h
        · rw [hfield.2] at h; cases h
      rw [he, if_neg (by decide)]
      exact yields_err _

theorem refines_struct {fields : List (Field DataType)} (hne : fields ≠ [])
    (ih : ∀ f ∈ fields, Refines rt f.dataType) : Refines rt (.struct fields) := by
  intro path values hfits
  simp only [fits] at hfits
  have hfields := buildFields_yields path ih hfits
  -- Row by row or column by column, the same cells are computed.
  have hrows : (values.mapM fun v => (present v).bind fun _ => rowFields rt fields v) =
      (values.mapM present).bind fun _ =>
        (fields.mapM fun f => values.mapM fun v => rowCell rt f.dataType (fieldOf f.name v)).map
          (Segments.toRows values.length) := by
    rw [Traverse.mapM_guard, ← Segments.mapM_toRows (fun (f : Field DataType) v =>
      rowCell rt f.dataType (fieldOf f.name v)) fields values]
    congr 1
    funext _
    congr 1
    funext v
    exact rowFields_eq_mapM fields v
  rw [(stored_struct fields).mapM, Traverse.mapM_map_with, hrows, buildColumn]
  show Yields (((buildFields rt fields path values).bind _).map _) _
  rcases hfields.of_map with ⟨columns, hbuild, hcells⟩ | ⟨e, hbuild, hrpc, hcells⟩
  · rw [hbuild, hcells, mapM_present]
    show Yields ((match values.find? misshapen with
      | some v => Except.error (err path s!"expected a map for STRUCT, got {describe v}")
      | none => arrow path (rt.arrays.tryNewStruct fields columns (nullBuffer values))).map _) _
    -- The shape of the rows is only looked at when all columns are built.
    cases values.find? misshapen with
    | some v => exact yields_err _
    | none =>
        have hlen : columns.length = fields.length := by
          simpa using Traverse.length_of_mapM hcells
        have hcolumns : ∀ c ∈ columns, c.cells.length = values.length := by
          intro c hc
          obtain ⟨f, -, hf⟩ := Traverse.exists_of_mem_mapM hcells (List.mem_map_of_mem hc)
          exact Traverse.length_of_mapM hf
        have htoRows : (Segments.toRows values.length (columns.map Arr.cells)).length =
            values.length := Segments.toRows_length (by simpa using hcolumns)
        simp only [Option.bind_some, Option.map_some]
        rw [map_snd_zipWith values .struct htoRows]
        exact tryNewStruct_yields hne hlen hcolumns
  · rw [hbuild, hcells]
    cases values.mapM present with
    | none => exact ⟨e, rfl, hrpc⟩
    | some _ => exact ⟨e, rfl, hrpc⟩

/-! ## Maps -/

theorem mapEntries_reports (path : String) (v : Value) :
    Reports path (mapEntries path v) (mapRow v) := by
  unfold mapEntries mapRow entriesOf
  apply Computes.ite
  · exact fun _ => .ok []
  · intro _
    cases untag v with
    | map entries => exact .ok entries
    | _ => exact reports_err _

/-- The cells of one entry, if its key and its value both convert. -/
def entryCells (rt : Runtime) (key val : DataType) (e : Value × Value) : Option (Cell × Cell) :=
  (rowCell rt key e.1).bind fun k => (rowCell rt val e.2).map fun c => (k, c)

theorem stored_map (name keyName valName : String) (key val : DataType)
    (keyNullable valNullable nullable sorted : Bool) :
    Stored (rowCell rt (.map ⟨name, .struct [⟨keyName, key, keyNullable⟩,
        ⟨valName, val, valNullable⟩], nullable⟩ sorted))
      (fun v => (mapRow v).bind fun entries => entries.mapM (entryCells rt key val))
      (fun r => admits keyNullable (r.map Prod.fst) && admits valNullable (r.map Prod.snd))
      .map where
  null v h := by
    refine ⟨rowCell_of_isNull _ h, [], ?_, ?_⟩
    · simp [mapRow, h]
    · simp [admits]
  row v h := by
    simp only [rowCell, mapRow, h]
    cases entriesOf v <;> rfl

theorem admits_entries (keyNullable valNullable : Bool) (rows : List (List (Cell × Cell))) :
    (rows.all fun r => admits keyNullable (r.map Prod.fst) && admits valNullable (r.map Prod.snd)) =
      (admits keyNullable (rows.flatten.map Prod.fst) &&
        admits valNullable (rows.flatten.map Prod.snd)) := by
  rw [List.map_flatten, List.map_flatten, admits_flatten, admits_flatten, List.all_map,
    List.all_map]
  induction rows with
  | nil => rfl
  | cons r rs ih =>
      simp only [List.all_cons, ih, Function.comp]
      generalize admits keyNullable (r.map Prod.fst) = a
      generalize admits valNullable (r.map Prod.snd) = b
      cases a <;> cases b <;> simp

/-- The entries struct has no mask of its own: every null counts. -/
theorem hasUnmaskedNulls_none (a : Arr) :
    Arr.hasUnmaskedNulls (Arr.validity a.len none) a = a.cells.any Cell.isNull := by
  have h := unmasked_replicate Cell.isNull true a.cells
  rw [Bool.true_and] at h
  exact h

theorem tryNewStruct_entries (rt : Runtime) (path : String) (key val : Field DataType) {keys vals : Arr}
    (hlen : vals.len = keys.len) :
    Reports path (arrow path (rt.arrays.tryNewStruct [key, val] [keys, vals] none))
      (if admits key.nullable keys.cells && admits val.nullable vals.cells then
        some (.struct keys.len [keys, vals] none) else none) := by
  have hvals : Arr.hasUnmaskedNulls (Arr.validity keys.len none) vals =
      vals.cells.any Cell.isNull := by
    rw [← hlen]
    exact hasUnmaskedNulls_none vals
  have htaken : StructTaken [key, val] [keys, vals] none ↔
      (admits key.nullable keys.cells && admits val.nullable vals.cells) = true := by
    simp only [StructTaken, rowsOf, List.zip_cons_cons, List.zip_nil_right, List.forall_mem_cons,
      hasUnmaskedNulls_none, hvals, hlen, admits, Bool.and_eq_true, Bool.or_eq_true,
      Bool.not_eq_true']
    simp [Covers]
  have hmakes := rt.arrays.struct_makes [key, val] [keys, vals] none
  cases hadmits : admits key.nullable keys.cells && admits val.nullable vals.cells with
  | true =>
      rw [hmakes.ok (htaken.2 hadmits)]
      exact .ok _
  | false =>
      obtain ⟨e, he⟩ := hmakes.refused fun h => by
        rw [htaken.1 h] at hadmits
        cases hadmits
      rw [he]
      exact reports_err _

/-- The map constructor reads flattened entries back row by row, by the offsets that the loop
recorded. -/
theorem tryNewMap_yields (field : Field DataType) (hnullable : field.nullable = false)
    {values : List Value} {entries : List (List (Cell × Cell))} {keys vals : Arr}
    (hlen : entries.length = values.length) (hvals : vals.len = keys.len)
    (hentries : entries.flatten = keys.cells.zip vals.cells) :
    Yields ((arrow path (rt.arrays.tryNewMap field (Segments.offsetsFrom 0 (entries.map List.length))
        keys vals (nullBuffer values))).map Arr.cells)
      (some (maskCells (nullBuffer values) (entries.map .map))) := by
  have hcount : keys.len = (entries.map List.length).sum := by
    have hzip : (keys.cells.zip vals.cells).length = keys.len := by
      rw [List.length_zip]
      exact (congrArg (min keys.len) hvals).trans (Nat.min_self _)
    rw [← hzip, ← hentries, List.length_flatten]
  have hend : ((Segments.offsetsFrom 0 (entries.map List.length)).getLast?).getD 0 ≤ keys.len := by
    rw [Segments.getLast?_offsetsFrom, hcount]
    simp
  have hmask : Covers (nullBuffer values)
      ((Segments.offsetsFrom 0 (entries.map List.length)).length - 1) := by
    rw [Segments.offsetsFrom_length, List.length_map, hlen]
    exact covers_nullBuffer values
  rw [(rt.arrays.map_makes field _ keys vals _).ok ⟨hend, hnullable, hmask⟩]
  show Yields (.ok (Arr.cells (.map _ _ _ _))) _
  rw [Arr.cells, ← hentries, Segments.slices_flatten]
  exact .ok _

/-- The flattened entries are the flattened keys zipped with the flattened values.  So the two
child columns can be built apart from each other. -/
theorem mapM_entryCells (rt : Runtime) (key val : DataType) (rows : List (List (Value × Value))) :
    (rows.mapM fun row : List (Value × Value) => row.mapM (entryCells rt key val)).map
        List.flatten =
      ((rows.flatten.map Prod.fst).mapM (rowCell rt key)).bind fun keys =>
        ((rows.flatten.map Prod.snd).mapM (rowCell rt val)).map fun vals => keys.zip vals := by
  rw [← Traverse.mapM_flatten, List.mapM_map, List.mapM_map]
  exact Traverse.mapM_zipWith Prod.mk rows.flatten

theorem refines_map {name keyName valName : String} {key val : DataType}
    {keyNullable valNullable sorted : Bool} (ihkey : Refines rt key) (ihval : Refines rt val) :
    Refines rt (.map ⟨name, .struct [⟨keyName, key, keyNullable⟩, ⟨valName, val, valNullable⟩],
      false⟩ sorted) := by
  intro path values hfits
  simp only [fits, Bool.and_eq_true, decide_eq_true_eq] at hfits
  obtain ⟨hshort, hfitsKey, hfitsVal⟩ := hfits
  have hloop := flattenLoop_start (fun v => (mapEntries_reports path v).yields) values
  rw [(stored_map name keyName valName key val keyNullable valNullable false sorted).mapM,
    Traverse.mapM_bind, buildColumn]
  cases hrows : values.mapM mapRow with
  | none =>
      rw [hrows] at hloop
      exact (hloop.bind_none _).map _
  | some rows =>
      rw [hrows] at hloop
      rw [flatRows_of_mapM hrows] at hshort hfitsKey hfitsVal
      rw [List.length_flatten] at hshort
      rw [show flattenLoop (mapEntries path) values [⟨0, by decide, by decide⟩] [] = .ok _ from
        hloop, Option.bind_some]
      have hkeys := ihkey s!"{path}.key" _ hfitsKey
      have hvals := ihval s!"{path}.value" _ hfitsVal
      have hcells := mapM_entryCells rt key val rows
      show Yields (((buildColumn rt key _ _).bind _).map _) _
      rcases hkeys.of_map with ⟨keys, hbuildKeys, hks⟩ | ⟨e, hbuildKeys, hrpc, hks⟩
      · rcases hvals.of_map with ⟨vals, hbuildVals, hvs⟩ | ⟨e, hbuildVals, hrpc, hvs⟩
        · rw [hks, hvs] at hcells
          obtain ⟨entries, hentries, hflatten⟩ := Option.map_eq_some_iff.1 hcells
          have hlen : vals.len = keys.len := by
            rw [Arr.len, Arr.len, Traverse.length_of_mapM hvs, Traverse.length_of_mapM hks,
              List.length_map, List.length_map]
          have hrowsLen : entries.length = values.length := by
            rw [Traverse.length_of_mapM hentries, Traverse.length_of_mapM hrows]
          rw [hbuildKeys, hentries, Option.bind_some, admits_entries, hflatten,
            List.map_fst_zip (Nat.le_of_eq hlen.symm), List.map_snd_zip (Nat.le_of_eq hlen)]
          show Yields (((buildColumn rt val _ _).bind _).map _) _
          rw [hbuildVals]
          show Yields (((arrow path _).bind _).map _) _
          have hstruct := (tryNewStruct_entries rt path
            ⟨keyName, key, keyNullable⟩ ⟨valName, val, valNullable⟩ hlen).yields
          -- The entries are a struct without a mask, so a null key is refused in it.
          cases hadmits : admits keyNullable keys.cells && admits valNullable vals.cells with
          | false =>
              rw [hadmits] at hstruct
              exact (hstruct.bind_none _).map _
          | true =>
              rw [hadmits] at hstruct
              rw [show arrow path (rt.arrays.tryNewStruct _ [keys, vals] none) = .ok _ from hstruct]
              show Yields (((rt.arrays.offsetBuffer _).bind _).map _) _
              rw [offsetBuffer_wrap hshort, ← Traverse.map_length_of_mapM hentries]
              exact tryNewMap_yields _ rfl hrowsLen hlen hflatten
        · rw [hks, hvs] at hcells
          rw [hbuildKeys, Option.map_eq_none_iff.1 hcells]
          show Yields (((buildColumn rt val _ _).bind _).map _) _
          rw [hbuildVals]
          exact ⟨e, rfl, hrpc⟩
      · rw [hks] at hcells
        rw [hbuildKeys, Option.map_eq_none_iff.1 hcells]
        exact ⟨e, rfl, hrpc⟩

/-! ## Scalars, and every type -/

/-- A type with a conversion is read row by row. -/
theorem rowCell_leaf {dt : DataType} {convert : Value → Except Fault Cell}
    (hleaf : leafAt rt path dt = some convert) (v : Value) :
    rowCell rt dt v = if isNull v then some .null else leafCell rt dt v := by
  cases dt <;> first
    | cases hleaf; done
    | simp only [rowCell]

theorem nullable_reports {dt : DataType} {convert : Value → Except Fault Cell}
    (hleaf : leafAt rt path dt = some convert) (v : Value) :
    Reports path (nullable convert v) (rowCell rt dt v) := by
  rw [rowCell_leaf hleaf]
  exact Computes.ite (fun _ => .ok _) (fun _ => leafAt_reports hleaf v)

theorem leaf_reports (path : String) {dt : DataType} {convert : Value → Except Fault Cell}
    (hleaf : leafAt rt path dt = some convert)
    {finish : List Cell → Except Fault Arr} (hfinish : ∀ cells, finish cells = .ok (.leaf cells))
    {values : List Value} (hbytes : BytesFit rt dt values) :
    Reports path (((appendAll dt (nullable convert) values).bind finish).map Arr.cells)
      (values.mapM (rowCell rt dt)) := by
  have hcells : Reports path (appendAll dt (nullable convert) values)
      (values.mapM (rowCell rt dt)) :=
    Computes.spend (fun v _ => nullable_reports hleaf v) (by rwa [Nat.zero_add])
  cases hspec : values.mapM (rowCell rt dt) with
  | none =>
      rw [hspec] at hcells
      exact (hcells.bind_none _).map _
  | some cells =>
      rw [hspec] at hcells
      rw [show appendAll dt (nullable convert) values = .ok cells from hcells]
      show Reports path ((finish cells).map Arr.cells) _
      rw [hfinish]
      exact .ok _

/-- A scalar column converts row by row, and its errors name the column.  The builder's panic
is excluded by the bound on the bytes. -/
theorem scalar_reports (path : String) {dt : DataType} (hscalar : dt.isNested = false)
    (hsupported : supported dt = true) {values : List Value} (hbytes : BytesFit rt dt values) :
    Reports path ((buildColumn rt dt path values).map Arr.cells)
      (values.mapM (rowCell rt dt)) := by
  cases dt with
  | null =>
      have hrow : ∀ v ∈ values, rowCell rt .null v = some .null := fun v _ => by rw [rowCell]
      rw [buildColumn, Traverse.mapM_congr hrow, Traverse.mapM_some_map]
      show Reports path (.ok (Arr.cells (.nullArray _))) _
      rw [Arr.cells, ← List.map_const']
      exact .ok _
  | decimal128 p s =>
      simp only [supported, decide_eq_true_eq] at hsupported
      simp only [buildColumn, leafAt]
      refine leaf_reports path rfl (fun cells => ?_) hbytes
      -- A supported decimal type has a precision and scale that Arrow takes.
      rw [(rt.arrays.decimal_makes p s _).ok hsupported]
      rfl
  | time32 unit =>
      cases unit <;> simp only [buildColumn, leafAt] <;>
        exact leaf_reports path rfl (fun _ => rfl) hbytes
  | time64 unit =>
      cases unit <;> simp only [buildColumn, leafAt] <;>
        exact leaf_reports path rfl (fun _ => rfl) hbytes
  | date64 => cases hsupported
  | other name => cases hsupported
  | list child => cases hscalar
  | largeList child => cases hscalar
  | fixedSizeList child size => cases hscalar
  | struct fields => cases hscalar
  | map entries sorted => cases hscalar
  | _ =>
      simp only [buildColumn, leafAt]
      exact leaf_reports path rfl (fun _ => rfl) hbytes

theorem refines_scalar {dt : DataType} (hscalar : dt.isNested = false)
    (hsupported : supported dt = true) : Refines rt dt := by
  intro path values hfits
  rw [fits_scalar hscalar, decide_eq_true_eq] at hfits
  exact (scalar_reports path hscalar hsupported hfits).yields

/-- The row semantics of a value that is not null, in a scalar column. -/
theorem rowCell_scalar {dt : DataType} (hscalar : dt.isNested = false)
    (htype : dt.isNullType = false) {v : Value} (hvalue : isNull v = false) :
    rowCell rt dt v = leafCell rt dt v := by
  cases dt <;> first
    | cases hscalar; done
    | cases htype; done
    | simp only [rowCell, hvalue, Bool.false_eq_true, if_false]

/-- A scalar column of one row that is not null and takes no bytes. -/
theorem buildColumn_scalar {dt : DataType} (hscalar : dt.isNested = false)
    (hsupported : supported dt = true) (htype : dt.isNullType = false)
    (hmax : dt.maxOffset = none) {v : Value} (hvalue : isNull v = false) :
    Yields ((buildColumn rt dt path [v]).map Arr.cells) ((leafCell rt dt v).map fun c => [c]) := by
  have hbuild : Reports path ((buildColumn rt dt path [v]).map Arr.cells) _ :=
    scalar_reports path hscalar hsupported (bytesFit_of_maxOffset hmax [v])
  rw [List.mapM_cons, List.mapM_nil, rowCell_scalar hscalar htype hvalue] at hbuild
  cases hcell : leafCell rt dt v <;> rw [hcell] at hbuild <;> exact hbuild.yields

/-- A column of a supported type builds exactly when each of its rows converts, and
holds their cells. -/
theorem buildColumn_yields (rt : Runtime) {dt : DataType} (hsupported : supported dt = true) :
    Refines rt dt := by
  refine supported_induct ?_ ?_ ?_ ?_ ?_ hsupported
  · exact fun dt hscalar h => refines_scalar hscalar h
  · exact fun _ _ _ ih => refines_list ih
  · exact fun _ _ _ _ hpos ih => refines_fixedSizeList hpos ih
  · exact fun _ hne ih => refines_struct hne ih
  · exact fun _ _ _ _ _ _ _ _ ihkey ihval => refines_map ihkey ihval

end VgiCbor.ValueOut
