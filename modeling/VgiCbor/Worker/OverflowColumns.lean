import VgiCbor.Worker.OverflowChecks

/-!
# Which columns overflow

The column builder goes through a column in a fixed order: rows, then children, then the
checks of the array constructors.  `Builds` says that nothing in it is refused, and
`Overflows` that, before anything is refused, an operation on integers overflows or the
32-bit offsets of a list or map come out of order.  In a build with overflow checks
the conversion panics exactly on the latter (`buildColumnIn_ends`).
-/

namespace VgiCbor.ValueOut

open MachineInt Outcome ArrayLibrary

/-! ## Builds and overflows -/

/-- The number of items each row stores. -/
def rowLengths {α : Type} (row : Value → Option (List α)) (values : List Value) : List Nat :=
  values.map fun v => ((row v).getD []).length

/-- The running totals, cast to 32-bit offsets, do not decrease.  Totals that wrap all the way
around may pass. -/
def InOrder (lengths : List Nat) : Prop :=
  ((Segments.offsetsFrom 0 lengths).map fun n : Nat => (I32.wrap n).val).Pairwise (· ≤ ·)

/-- The child takes the items: none of them is null, or it is nullable.  For a column of type
`NULL` every item is. -/
def Takes (nullable : Bool) (child : DataType) (items : List Value) : Prop :=
  nullable = true ∨ ∀ i ∈ items, nullIn child i = false

/-- The values of a field in the rows that are not null. -/
def presentFields (name : String) (values : List Value) : List Value :=
  (values.filter fun v => !isNull v).map (fieldOf name)

mutual

/-- No row of a column of the type is refused, and nothing overflows.  The condition is one on
the values: it says nothing of cells, arrays or paths. -/
def Builds (rt : Runtime) : DataType → List Value → Prop
  | .fixedSizeList ⟨_, child, nullable⟩ size, values =>
      values.length * size < 0x10000000000000000 ∧ (∀ v ∈ values, (fixedRow size v).isSome) ∧
        Builds rt child (flatRows (fixedRow size) values) ∧
          Takes nullable child (flatRows (fixedRow size) (values.filter fun v => !isNull v))
  | .list ⟨_, child, nullable⟩, values =>
      ((∀ v ∈ values, (listRow v).isSome) ∧ InOrder (rowLengths listRow values)) ∧
        Builds rt child (flatRows listRow values) ∧ Takes nullable child (flatRows listRow values)
  | .struct fields, values =>
      FieldsBuild rt fields values ∧ (∀ v ∈ values, misshapen v = false) ∧
        ∀ f ∈ fields, Takes f.nullable f.dataType (presentFields f.name values)
  | .map ⟨_, .struct [⟨_, key, keyNullable⟩, ⟨_, val, valNullable⟩], _⟩ _, values =>
      let flat := flatRows mapRow values
      (∀ v ∈ values, (mapRow v).isSome) ∧ Builds rt key (flat.map Prod.fst) ∧
        Builds rt val (flat.map Prod.snd) ∧
          (Takes keyNullable key (flat.map Prod.fst) ∧ Takes valNullable val (flat.map Prod.snd)) ∧
            InOrder (rowLengths mapRow values)
  | dt, values => (∀ v ∈ values, (rowCell rt dt v).isSome) ∧ BytesFit rt dt values

def FieldsBuild (rt : Runtime) : List (Field DataType) → List Value → Prop
  | [], _ => True
  | ⟨name, dt, _⟩ :: fields, values =>
      Builds rt dt (values.map (fieldOf name)) ∧ FieldsBuild rt fields values

end

mutual

/-- Before a row is refused, a column of the type meets an extreme exponent, a list or map
whose offsets are not in order, a product of lengths beyond 64 bits, or a text or blob
whose end is no offset of the column. -/
def Overflows (rt : Runtime) : DataType → List Value → Prop
  | .fixedSizeList ⟨_, child, _⟩ size, values =>
      0x10000000000000000 ≤ values.length * size ∨
        (∀ v ∈ values, (fixedRow size v).isSome) ∧
          Overflows rt child (flatRows (fixedRow size) values)
  | .list ⟨_, child, _⟩, values =>
      (∀ v ∈ values, (listRow v).isSome) ∧
        (¬ InOrder (rowLengths listRow values) ∨ Overflows rt child (flatRows listRow values))
  | .struct fields, values => FieldsOverflow rt fields values
  | .map ⟨_, .struct [⟨_, key, keyNullable⟩, ⟨_, val, valNullable⟩], _⟩ _, values =>
      let flat := flatRows mapRow values
      (∀ v ∈ values, (mapRow v).isSome) ∧
        (Overflows rt key (flat.map Prod.fst) ∨ Builds rt key (flat.map Prod.fst) ∧
          (Overflows rt val (flat.map Prod.snd) ∨ Builds rt val (flat.map Prod.snd) ∧
            (Takes keyNullable key (flat.map Prod.fst) ∧
              Takes valNullable val (flat.map Prod.snd)) ∧ ¬ InOrder (rowLengths mapRow values)))
  | dt, values =>
      ∃ front v back, values = front ++ v :: back ∧ (∀ u ∈ front, (rowCell rt dt u).isSome) ∧
        (isNull v = false ∧ extremeIn dt v = true ∨
          (rowCell rt dt v).isSome ∧ ¬ BytesFit rt dt (front ++ [v]))

/-- `Overflows` for the first field of a struct that does not build.  The fields behind it are
not reached. -/
def FieldsOverflow (rt : Runtime) : List (Field DataType) → List Value → Prop
  | [], _ => False
  | ⟨name, dt, _⟩ :: fields, values =>
      Overflows rt dt (values.map (fieldOf name)) ∨
        Builds rt dt (values.map (fieldOf name)) ∧ FieldsOverflow rt fields values

end

attribute [local simp] Builds Overflows

/-- The fault is an error on the column with the given path, or on one inside it, whose path
starts with that path. -/
def BelowColumn (path : String) (e : Fault) : Prop :=
  ∃ below message, e = err (path ++ below) message

/-- A column is built, refused or left in a panic as its type says; the null cells of a
built one are those of its rows. -/
def Settles (rt : Runtime) (dt : DataType) : Prop :=
  ∀ path values, Ends (BelowColumn path) IsPanic (buildColumnIn .checked rt dt path values)
    (Builds rt dt values) (Overflows rt dt values)
    fun a => a.cells.map Cell.isNull = values.map (nullIn dt)

variable {rt : Runtime} {path : String}

theorem NamesColumn.below {e : Fault} (h : NamesColumn path e) : BelowColumn path e := by
  obtain ⟨message, rfl⟩ := h
  exact ⟨"", message, by rw [String.append_empty]⟩

theorem BelowColumn.of_append (below : String) {e : Fault} (h : BelowColumn (path ++ below) e) :
    BelowColumn path e := by
  obtain ⟨below', message, rfl⟩ := h
  exact ⟨below ++ below', message, by rw [String.append_assoc]⟩

/-- A child column, whose path extends that of its parent, ends as its own type says. -/
theorem Settles.child {dt : DataType} (h : Settles rt dt) (below : String) (values : List Value) :
    Ends (BelowColumn path) IsPanic (buildColumnIn .checked rt dt (path ++ below) values)
      (Builds rt dt values) (Overflows rt dt values)
      fun a => a.cells.map Cell.isNull = values.map (nullIn dt) :=
  (h (path ++ below) values).imp Iff.rfl Iff.rfl (fun _ he => he.of_append below) fun _ ha => ha

/-- Errors on a column are errors on it or below. -/
theorem Ends.below {α : Type} {x : Except Fault α} {returns breaks : Prop} {good : α → Prop}
    (h : Ends (NamesColumn path) IsPanic x returns breaks good) :
    Ends (BelowColumn path) IsPanic x returns breaks good :=
  h.imp Iff.rfl Iff.rfl (fun _ he => he.below) fun _ ha => ha

/-! ## Scalars -/

section Scalar

variable {dt : DataType} {convert : Value → Except Fault Cell}

/-- One row of a scalar column: it is null or converts, panics at an extreme value, or is
refused with an error on the column. -/
theorem nullable_ends (hscalar : dt.isNested = false) (htype : dt.isNullType = false)
    (hleaf : leafIn .checked rt path dt = some convert) (v : Value) :
    Ends (NamesColumn path) IsPanic (nullable convert v) ((rowCell rt dt v).isSome = true)
      (isNull v = false ∧ extremeIn dt v = true) (rowCell rt dt v = some ·) := by
  cases hvalue : isNull v with
  | true =>
      have hrow := @rowCell_of_isNull rt dt v hvalue
      have hok : nullable convert v = .ok .null := if_pos hvalue
      rw [hok, hrow]
      exact (Ends.ok rfl).imp (by simp) (by simp) (fun _ h => h) fun _ h => congrArg some h
  | false =>
      have hconvert : nullable convert v = convert v := if_neg (by simp [hvalue])
      rw [hconvert, rowCell_scalar hscalar htype hvalue]
      exact (leafIn_panicsAt hleaf v).imp Iff.rfl (by simp) (fun _ h => h) fun _ h => h

/-- Only null rows are null cells of a scalar column. -/
theorem isNull_of_rowCell (hscalar : dt.isNested = false) (htype : dt.isNullType = false)
    {v : Value} {c : Cell} (h : rowCell rt dt v = some c) : c.isNull = nullIn dt v := by
  rw [nullIn, htype, Bool.false_or]
  cases hvalue : isNull v with
  | true =>
      rw [rowCell_of_isNull dt hvalue] at h
      cases h
      rfl
  | false =>
      rw [rowCell_scalar hscalar htype hvalue] at h
      exact isNull_of_leafCell h

theorem nulls_of_rowCells (hscalar : dt.isNested = false) (htype : dt.isNullType = false)
    {values : List Value} {cells : List Cell}
    (h : List.Forall₂ (fun v c => rowCell rt dt v = some c) values cells) :
    cells.map Cell.isNull = values.map (nullIn dt) := by
  induction h with
  | nil => rfl
  | cons hrow _ ih =>
      rw [List.map_cons, List.map_cons, ih, isNull_of_rowCell hscalar htype hrow]

theorem leaf_ends (hscalar : dt.isNested = false) (htype : dt.isNullType = false)
    (hleaf : leafIn .checked rt path dt = some convert)
    {finish : List Cell → Except Fault Arr} (hfinish : ∀ cells, finish cells = .ok (.leaf cells))
    (values : List Value) :
    Ends (NamesColumn path) IsPanic ((appendAll dt (nullable convert) values).bind finish)
      ((∀ v ∈ values, (rowCell rt dt v).isSome) ∧ BytesFit rt dt values)
      (∃ front v back, values = front ++ v :: back ∧ (∀ u ∈ front, (rowCell rt dt u).isSome) ∧
        (isNull v = false ∧ extremeIn dt v = true ∨
          (rowCell rt dt v).isSome ∧ ¬ BytesFit rt dt (front ++ [v])))
      fun a => a.cells.map Cell.isNull = values.map (nullIn dt) := by
  let cost (v : Value) : Nat := ((rowCell rt dt v).map Cell.byteSize).getD 0
  have hrow (v : Value) (_ : v ∈ values) : Ends (NamesColumn path) IsPanic (nullable convert v)
      ((rowCell rt dt v).isSome = true) (isNull v = false ∧ extremeIn dt v = true)
      fun c => rowCell rt dt v = some c ∧ c.byteSize = cost v := by
    refine (nullable_ends hscalar htype hleaf v).imp Iff.rfl Iff.rfl (fun _ h => h) fun c hc => ?_
    exact ⟨hc, by simp only [cost, hc, Option.map_some, Option.getD_some]⟩
  have hbytes (vs : List Value) :
      Within dt.maxOffset (0 + (vs.map cost).sum) ↔ BytesFit rt dt vs := by
    rw [Nat.zero_add]
    rfl
  have hexceeded : IsPanic (.panic "byte array offset overflow") := rfl
  have hstart : Within dt.maxOffset 0 := fun n _ => Nat.zero_le n
  have hrows := Ends.spend hexceeded hstart hrow
  refine Ends.bind_ok (hrows.imp ?_ ?_ (fun _ h => h) fun _ h => h) ?_
  · rw [hbytes]
  · simp only [BreaksIn, hbytes]
  · intro cells hcells
    exact ⟨.leaf cells, hfinish cells, nulls_of_rowCells hscalar htype hcells⟩

end Scalar

theorem scalar_ends {dt : DataType} (hscalar : dt.isNested = false)
    (hsupported : supported dt = true) (values : List Value) :
    Ends (NamesColumn path) IsPanic (buildColumnIn .checked rt dt path values)
      (Builds rt dt values) (Overflows rt dt values)
      fun a => a.cells.map Cell.isNull = values.map (nullIn dt) := by
  cases dt with
  | null =>
      rw [buildColumnIn]
      have hbytes (vs : List Value) : BytesFit rt .null vs := bytesFit_of_maxOffset rfl vs
      refine (Ends.ok ?_).imp ?_ ?_ (fun _ he => he) fun _ ha => ha
      · rw [Arr.cells, List.map_replicate]
        exact List.map_const'.symm
      · simp [rowCell, hbytes]
      · simp [extremeIn, hbytes]
  | decimal128 p s =>
      simp only [supported, decide_eq_true_eq] at hsupported
      simp only [buildColumnIn, leafIn, Builds, Overflows]
      refine leaf_ends rfl rfl rfl (fun cells => ?_) values
      -- A supported decimal type has a precision and scale that Arrow takes.
      rw [(rt.arrays.decimal_makes p s _).ok hsupported]
      rfl
  | time32 unit =>
      cases unit <;> simp only [buildColumnIn, leafIn, Builds, Overflows] <;>
        exact leaf_ends rfl rfl rfl (fun _ => rfl) values
  | time64 unit =>
      cases unit <;> simp only [buildColumnIn, leafIn, Builds, Overflows] <;>
        exact leaf_ends rfl rfl rfl (fun _ => rfl) values
  | date64 => cases hsupported
  | other name => cases hsupported
  | list child => cases hscalar
  | largeList child => cases hscalar
  | fixedSizeList child size => cases hscalar
  | struct fields => cases hscalar
  | map entries sorted => cases hscalar
  | _ =>
      simp only [buildColumnIn, leafIn, Builds, Overflows]
      exact leaf_ends rfl rfl rfl (fun _ => rfl) values

theorem settles_scalar {dt : DataType} (hscalar : dt.isNested = false)
    (hsupported : supported dt = true) : Settles rt dt := by
  intro path values
  exact (scalar_ends hscalar hsupported values).imp Iff.rfl Iff.rfl (fun _ he => he.below)
    fun _ ha => ha

/-! ## Flattened rows -/

/-- Rows that are all accepted, in one list. -/
theorem mapM_eq_some_getD {α : Type} {row : Value → Option (List α)} {values : List Value}
    {rows : List (List α)} (h : values.mapM row = some rows) :
    rows = values.map fun v => (row v).getD [] := by
  have hmap := congrArg (List.map fun r : Option (List α) => r.getD []) (Traverse.map_of_mapM h)
  rw [List.map_map, List.map_map] at hmap
  exact (List.map_id' rows).symm.trans hmap.symm

/-- The 32-bit offsets of rows of these lengths. -/
def offsets32 (lengths : List Nat) : List I32 :=
  (Segments.offsetsFrom 0 lengths).map fun n : Nat => I32.wrap n

theorem flattenLoop_ends {benign : Fault → Prop} {α : Type}
    {items : Value → Except Fault (List α)} {row : Value → Option (List α)}
    (hitems : ∀ v, Computes benign (items v) (row v)) (values : List Value) :
    Ends benign IsPanic (flattenLoop items values [I32.wrap 0] [])
      (∀ v ∈ values, (row v).isSome) False
      fun r => r = (offsets32 (rowLengths row values), flatRows row values) := by
  refine (flattenLoop_start hitems values).ends.imp ?_ Iff.rfl (fun _ he => he) ?_
  · rw [Option.isSome_map, Traverse.mapM_isSome_iff]
  · intro r hr
    obtain ⟨rows, hrows, rfl⟩ := Option.map_eq_some_iff.1 hr
    rw [flatRows_of_mapM hrows, offsets32, rowLengths]
    rw [mapM_eq_some_getD hrows, List.map_map]
    rfl

/-- Offsets that are in order are taken; others panic.  The first offset is zero, so none of
those in order is negative. -/
theorem offsetBuffer_ends {benign : Fault → Prop} (lengths : List Nat) :
    Ends benign IsPanic (rt.arrays.offsetBuffer (offsets32 lengths)) (InOrder lengths)
      (¬ InOrder lengths) (· = (offsets32 lengths).map fun n => n.val.toNat) := by
  have hhead : (offsets32 lengths).head?.all (fun o => 0 ≤ o.val) = true := by
    rw [offsets32, Segments.offsetsFrom_eq_cons]
    rfl
  have horder : ((offsets32 lengths).map Ranged.val).Pairwise (· ≤ ·) ↔ InOrder lengths := by
    rw [offsets32, List.map_map]
    rfl
  constructor
  · exact fun h => ⟨_, rt.arrays.offsetBuffer_ok _ ⟨hhead, horder.2 h⟩, rfl⟩
  · intro h
    obtain ⟨message, hpanic⟩ := rt.arrays.offsetBuffer_panics (offsets32 lengths)
      fun hp => h (horder.1 hp.2)
    exact ⟨_, hpanic, rfl⟩
  · exact fun h hnot => (hnot h).elim

theorem flattenLists_ends (values : List Value) :
    Ends (NamesColumn path) IsPanic (flattenLists rt path values)
      ((∀ v ∈ values, (listRow v).isSome) ∧ InOrder (rowLengths listRow values))
      ((∀ v ∈ values, (listRow v).isSome) ∧ ¬ InOrder (rowLengths listRow values))
      (· = ((offsets32 (rowLengths listRow values)).map fun n => n.val.toNat, nullBuffer values,
        flatRows listRow values)) := by
  have hloop : Ends (NamesColumn path) IsPanic (flattenLists rt path values)
      ((∀ v ∈ values, (listRow v).isSome) ∧ InOrder (rowLengths listRow values))
      (False ∨ (∀ v ∈ values, (listRow v).isSome) ∧ ¬ InOrder (rowLengths listRow values))
      (· = ((offsets32 (rowLengths listRow values)).map fun n => n.val.toNat, nullBuffer values,
        flatRows listRow values)) := by
    apply (flattenLoop_ends (listItems_reports path) values).bind
    rintro r rfl
    exact (offsetBuffer_ends _).map fun offsets hoffsets => by rw [hoffsets]
  exact hloop.imp Iff.rfl (by simp) (fun _ he => he) fun _ ha => ha

theorem length_flatRows {α : Type} (row : Value → Option (List α)) (values : List Value) :
    (flatRows row values).length = (rowLengths row values).sum :=
  List.length_flatMap

theorem length_offsets32 {α : Type} (row : Value → Option (List α)) (values : List Value) :
    (offsets32 (rowLengths row values)).length = values.length + 1 := by
  simp [offsets32, rowLengths]

/-- Even wrapped offsets do not run past the items, since wrapping never makes a length
larger. -/
theorem last_offset_le {α : Type} (row : Value → Option (List α)) (values : List Value) :
    ((offsets32 (rowLengths row values)).map fun n => n.val.toNat).getLast?.getD 0 ≤
      (flatRows row values).length := by
  rw [length_flatRows, offsets32, List.map_map, List.getLast?_map, Segments.getLast?_offsetsFrom,
    Nat.zero_add, Option.map_some, Option.getD_some, Function.comp]
  have hwrap (n : Int) : (I32.wrap n).val = (n + 0x80000000) % 0x100000000 - 0x80000000 := rfl
  rw [hwrap]
  omega

/-! ## Null cells -/

/-- A nested column under the mask of its rows has their nulls and no others. -/
theorem map_isNull_maskCells {ρ : Type} {mk : ρ → Cell} (hmk : ∀ r, (mk r).isNull = false)
    {values : List Value} {rows : List ρ} (hlen : rows.length = values.length) :
    (maskCells (nullBuffer values) (rows.map mk)).map Cell.isNull = values.map isNull := by
  rw [maskCells_nullBuffer (by rw [List.length_map, hlen])]
  induction values generalizing rows with
  | nil => rfl
  | cons v vs ih =>
      cases rows with
      | nil => cases hlen
      | cons r rs =>
          rw [List.map_cons, List.zipWith_cons_cons, List.map_cons, List.map_cons,
            ih (Nat.succ.inj hlen)]
          cases hv : isNull v with
          | true => rfl
          | false => simp [hmk]

theorem takes_iff {nullable : Bool} {child : DataType} {items : List Value} :
    Takes nullable child items ↔ nullable = true ∨ items.any (nullIn child) = false := by
  simp [Takes]

/-- The null cells of a column are known by its rows, without a look at the other cells. -/
theorem any_isNull_of_map {column : Arr} {dt : DataType} {items : List Value}
    (h : column.cells.map Cell.isNull = items.map (nullIn dt)) :
    column.cells.any Cell.isNull = items.any (nullIn dt) := by
  have hany := congrArg (List.any · id) h
  simpa only [List.any_map, Function.id_comp] using hany

theorem len_of_map {column : Arr} {dt : DataType} {items : List Value}
    (h : column.cells.map Cell.isNull = items.map (nullIn dt)) : column.len = items.length := by
  simpa [Arr.len] using congrArg List.length h

/-- The child takes the items if its column admits their nulls. -/
theorem takes_iff_admits {field : Field DataType} {column : Arr} {items : List Value}
    (h : column.cells.map Cell.isNull = items.map (nullIn field.dataType)) :
    Takes field.nullable field.dataType items ↔ admits field.nullable column.cells = true := by
  rw [takes_iff, admits, any_isNull_of_map h, Bool.or_eq_true, Bool.not_eq_true']

/-- An array constructor refuses with an error that names the column, and never panics. -/
theorem arrow_ends {result : Except String Arr} {taken p : Prop} {a : Arr} {good : Arr → Prop}
    (h : Makes result taken a) (hp : taken ↔ p) (hgood : p → good a) :
    Ends (NamesColumn path) IsPanic (arrow path result) p False good where
  returned hholds := ⟨a, by rw [h.ok (hp.2 hholds)]; rfl, hgood hholds⟩
  broke h := h.elim
  refused hnot _ := by
    obtain ⟨e, he⟩ := h.refused fun htaken => hnot (hp.1 htaken)
    exact ⟨err path e, by rw [he]; rfl, _, rfl⟩

/-! ## Lists -/

theorem tryNewList_ends (field : Field DataType) {values : List Value} {column : Arr}
    (hnulls : column.cells.map Cell.isNull =
      (flatRows listRow values).map (nullIn field.dataType)) :
    Ends (NamesColumn path) IsPanic
      (arrow path (rt.arrays.tryNewList field
        ((offsets32 (rowLengths listRow values)).map fun n => n.val.toNat) column
        (nullBuffer values)))
      (Takes field.nullable field.dataType (flatRows listRow values)) False
      fun a => a.cells.map Cell.isNull = values.map isNull := by
  have hend := last_offset_le listRow values
  rw [← len_of_map hnulls] at hend
  have htaken := listTaken_iff field
    ((List.length_map _).trans (length_offsets32 listRow values)) hend
  refine arrow_ends (rt.arrays.list_makes _ _ _ _) (htaken.trans (takes_iff_admits hnulls).symm)
    fun _ => ?_
  rw [Arr.cells]
  apply map_isNull_maskCells fun _ => rfl
  rw [Segments.slices_length, List.length_map, length_offsets32]
  rfl

theorem settles_list {name : String} {child : DataType} {nullable : Bool} (ih : Settles rt child) :
    Settles rt (.list ⟨name, child, nullable⟩) := by
  intro path values
  rw [buildColumnIn, Builds, Overflows]
  apply Ends.bind_iff (Ends.below (flattenLists_ends values))
  · rintro r rfl
    exact (ih.child "[]" _).bind fun column hcolumn =>
      Ends.below (tryNewList_ends ⟨name, child, nullable⟩ hcolumn)
  · exact Iff.rfl
  · tauto

/-! ## Fixed-size lists -/

/-- The unmasked nulls of a column are known by its rows. -/
theorem hasUnmaskedNulls_of_map {column : Arr} {dt : DataType} {items : List Value}
    (h : column.cells.map Cell.isNull = items.map (nullIn dt)) (valid : List Bool) :
    Arr.hasUnmaskedNulls valid column =
      (List.zipWith (fun ok i => ok && nullIn dt i) valid items).any id := by
  have hmask {α : Type} (p : α → Bool) (xs : List α) :
      List.zipWith (fun ok x => ok && p x) valid xs = List.zipWith (· && ·) valid (xs.map p) :=
    List.zipWith_map_right.symm
  rw [Arr.hasUnmaskedNulls, hmask Cell.isNull, h, ← hmask]

/-- Under the mask of the rows only those that are not null count, so the others can be left
out. -/
theorem any_present {β : Type} (p : β → Bool) (g : Value → β) (values : List Value) :
    (List.zipWith (fun ok b => ok && p b) (values.map fun v => !isNull v) (values.map g)).any id =
      ((values.filter fun v => !isNull v).map g).any p := by
  induction values with
  | nil => rfl
  | cons v vs ih =>
      rw [List.map_cons, List.map_cons, List.zipWith_cons_cons, List.any_cons, ih]
      cases hv : isNull v <;> simp [hv]

theorem tryNewFixedSizeList_ends (field : Field DataType) {size : Nat} (hpos : 1 ≤ size)
    {values : List Value} {rows : List (List Value)} {column : Arr}
    (hrows : values.mapM (fixedRow size) = some rows)
    (hnulls : column.cells.map Cell.isNull = rows.flatten.map (nullIn field.dataType)) :
    Ends (NamesColumn path) IsPanic
      (arrow path (rt.arrays.tryNewFixedSizeList field size column (nullBuffer values)))
      (Takes field.nullable field.dataType
        (flatRows (fixedRow size) (values.filter fun v => !isNull v))) False
      fun a => a.cells.map Cell.isNull = values.map isNull := by
  have hsize : ∀ row ∈ rows, row.length = size := by
    intro row hrow
    obtain ⟨v, -, hv⟩ := Traverse.exists_of_mem_mapM hrows hrow
    exact fixedRow_length hv
  have hlen : rows.length = values.length := Traverse.length_of_mapM hrows
  have hcount : column.len = values.length * size := by
    rw [len_of_map hnulls, length_flatten_sized hsize, hlen]
  have hmasked : Arr.hasUnmaskedNulls
      ((values.map fun v => !isNull v).flatMap (List.replicate size)) column =
        (flatRows (fixedRow size) (values.filter fun v => !isNull v)).any
          (nullIn field.dataType) := by
    rw [hasUnmaskedNulls_of_map hnulls,
      unmasked_flatten _ hsize (by rw [hlen, List.length_map]), mapM_eq_some_getD hrows,
      any_present, flatRows, List.any_flatMap, List.any_map]
    rfl
  have htaken := fixedSizeListTaken_iff field hpos hcount
  rw [hmasked, ← takes_iff] at htaken
  refine arrow_ends (rt.arrays.fixedSizeList_makes _ _ _ _) htaken fun _ => ?_
  rw [fixedSizeRows_nullBuffer hpos hcount, Arr.cells]
  exact map_isNull_maskCells (fun _ => rfl) (Segments.chunks_length _ _ _)

theorem settles_fixedSizeList {name : String} {child : DataType} {nullable : Bool} {size : Nat}
    (hpos : 1 ≤ size) (ih : Settles rt child) :
    Settles rt (.fixedSizeList ⟨name, child, nullable⟩ size) := by
  intro path values
  have hcapacity : Ends (BelowColumn path) IsPanic
      (Arithmetic.checked.usize "multiply" (values.length * size))
      (values.length * size < 0x10000000000000000) (¬ values.length * size < 0x10000000000000000)
      fun _ => True := Ends.guard (fun _ => trivial) rfl
  have hitems : Computes (NamesColumn path) (values.mapM (fixedItems rt path
      (.fixedSizeList ⟨name, child, nullable⟩ size) size)) (values.mapM (fixedRow size)) :=
    Computes.mapM fun v _ => fixedItems_reports _ size v
  rw [buildColumnIn, Builds, Overflows]
  apply hcapacity.bind_iff
  · intro _ _
    apply Ends.bind (Ends.below hitems.ends)
    intro rows hrows
    rw [← flatRows_of_mapM hrows]
    apply (ih.child "[]" _).bind
    intro column hcolumn
    rw [flatRows_of_mapM hrows] at hcolumn
    exact Ends.below (tryNewFixedSizeList_ends ⟨name, child, nullable⟩ hpos hrows hcolumn)
  · rw [Traverse.mapM_isSome_iff]
  · rw [Traverse.mapM_isSome_iff, Nat.not_lt]
    have hcases := Nat.lt_or_ge (values.length * size) 0x10000000000000000
    tauto

/-! ## Structs -/

/-- The column has the nulls that the field has in the rows.  This is all that the checks of a
struct look at. -/
def FieldNulls (values : List Value) (field : Field DataType) (column : Arr) : Prop :=
  column.cells.map Cell.isNull = (values.map (fieldOf field.name)).map (nullIn field.dataType)

theorem fields_ends {fields : List (Field DataType)} (ih : ∀ f ∈ fields, Settles rt f.dataType)
    (values : List Value) :
    Ends (BelowColumn path) IsPanic (buildFieldsIn .checked rt fields path values)
      (FieldsBuild rt fields values) (FieldsOverflow rt fields values)
      (List.Forall₂ (FieldNulls values) fields) := by
  induction fields with
  | nil =>
      rw [buildFieldsIn, FieldsBuild, FieldsOverflow]
      exact Ends.ok .nil
  | cons f fs ihfs =>
      obtain ⟨name, dt, nullable⟩ := f
      rw [buildFieldsIn, FieldsBuild, FieldsOverflow]
      have hhead : Ends (BelowColumn (path ++ ".")) IsPanic
          (buildColumnIn .checked rt dt (path ++ "." ++ name) (values.map (fieldOf name)))
          (Builds rt dt (values.map (fieldOf name))) (Overflows rt dt (values.map (fieldOf name)))
          (FieldNulls values ⟨name, dt, nullable⟩) :=
        (ih ⟨name, dt, nullable⟩ (by simp)).child name _
      apply (hhead.imp Iff.rfl Iff.rfl (fun _ he => he.of_append ".") fun _ ha => ha).bind
      intro column hcolumn
      exact (ihfs fun f hf => ih f (List.mem_cons_of_mem _ hf)).map fun columns hcolumns =>
        .cons hcolumn hcolumns

theorem FieldNulls.len_eq {fields : List (Field DataType)} {values : List Value}
    {columns : List Arr} (h : List.Forall₂ (FieldNulls values) fields columns) :
    ∀ c ∈ columns, c.len = values.length := by
  have hlen := h.length_eq
  intro c hc
  have hsnd : (fields.zip columns).map Prod.snd = columns := List.map_snd_zip (by omega)
  rw [← hsnd] at hc
  obtain ⟨fc, hfc, rfl⟩ := List.mem_map.1 hc
  rw [len_of_map (List.forall₂_zip h hfc), List.length_map]

/-- A field finds the unmasked nulls of its column in the rows that are not null. -/
theorem FieldNulls.unmasked {fields : List (Field DataType)} {values : List Value}
    {columns : List Arr} (h : List.Forall₂ (FieldNulls values) fields columns)
    {fc : Field DataType × Arr} (hfc : fc ∈ fields.zip columns) :
    Arr.hasUnmaskedNulls (values.map fun v => !isNull v) fc.2 =
      (presentFields fc.1.name values).any (nullIn fc.1.dataType) := by
  rw [hasUnmaskedNulls_of_map (List.forall₂_zip h hfc), any_present, presentFields]

/-- Every field takes what the rows have for it exactly if no field finds unmasked nulls that
it does not allow. -/
theorem FieldNulls.takes_iff {fields : List (Field DataType)} {values : List Value}
    {columns : List Arr} (h : List.Forall₂ (FieldNulls values) fields columns) :
    (∀ fc ∈ fields.zip columns, fc.1.nullable = true ∨
        Arr.hasUnmaskedNulls (values.map fun v => !isNull v) fc.2 = false) ↔
      ∀ f ∈ fields, Takes f.nullable f.dataType (presentFields f.name values) := by
  have hlen := h.length_eq
  have hfst : (fields.zip columns).map Prod.fst = fields := List.map_fst_zip (by omega)
  have hfield (fc : Field DataType × Arr) (hfc : fc ∈ fields.zip columns) :
      (fc.1.nullable = true ∨
          Arr.hasUnmaskedNulls (values.map fun v => !isNull v) fc.2 = false) ↔
        Takes fc.1.nullable fc.1.dataType (presentFields fc.1.name values) := by
    rw [FieldNulls.unmasked h hfc, ValueOut.takes_iff]
  constructor
  · intro hall f hf
    rw [← hfst] at hf
    obtain ⟨fc, hfc, rfl⟩ := List.mem_map.1 hf
    exact (hfield fc hfc).1 (hall fc hfc)
  · exact fun htakes fc hfc => (hfield fc hfc).2 (htakes fc.1 (List.of_mem_zip hfc).1)

theorem tryNewStruct_ends {fields : List (Field DataType)} (hne : fields ≠ [])
    {values : List Value} {columns : List Arr}
    (hcolumns : List.Forall₂ (FieldNulls values) fields columns) :
    Ends (NamesColumn path) IsPanic
      (arrow path (rt.arrays.tryNewStruct fields columns (nullBuffer values)))
      (∀ f ∈ fields, Takes f.nullable f.dataType (presentFields f.name values)) False
      fun a => a.cells.map Cell.isNull = values.map isNull := by
  have hlen := hcolumns.length_eq
  have hcount := FieldNulls.len_eq hcolumns
  have hsome : columns ≠ [] := fun h => hne (List.length_eq_zero_iff.1 (by rw [hlen, h]; rfl))
  refine arrow_ends (rt.arrays.struct_makes fields columns (nullBuffer values))
    ((structTaken_iff hsome hlen hcount).trans (FieldNulls.takes_iff hcolumns)) fun _ => ?_
  rw [rowsOf_eq hsome hcount, Arr.cells, Arr.columnCells_eq_map]
  exact map_isNull_maskCells (fun _ => rfl)
    (Segments.toRows_length (List.forall_mem_map.2 hcount))

theorem settles_struct {fields : List (Field DataType)} (hne : fields ≠ [])
    (ih : ∀ f ∈ fields, Settles rt f.dataType) : Settles rt (.struct fields) := by
  intro path values
  have hbreaks : FieldsOverflow rt fields values ↔
      FieldsOverflow rt fields values ∨ FieldsBuild rt fields values ∧ False := by tauto
  rw [buildColumnIn, Builds, Overflows]
  refine (fields_ends ih values).bind_iff ?_ Iff.rfl hbreaks
  intro columns hcolumns
  -- The shape of the rows is only looked at when all columns are built.
  cases hfound : values.find? misshapen with
  | some v =>
      have hv : misshapen v = true := List.find?_some hfound
      apply Ends.error (NamesColumn.below ⟨_, rfl⟩)
      rintro ⟨hshapes, -⟩
      rw [hshapes v (List.mem_of_find?_eq_some hfound)] at hv
      cases hv
  | none =>
      have hshapes : ∀ v ∈ values, misshapen v = false := by
        simpa using List.find?_eq_none.1 hfound
      exact (Ends.below (tryNewStruct_ends hne hcolumns)).imp (and_iff_right hshapes) Iff.rfl
        (fun _ he => he) fun _ ha => ha

/-! ## Maps -/

theorem entries_ends (key val : Field DataType) {keys vals : Arr} {ks vs : List Value}
    (hkeys : keys.cells.map Cell.isNull = ks.map (nullIn key.dataType))
    (hvals : vals.cells.map Cell.isNull = vs.map (nullIn val.dataType))
    (hlen : vs.length = ks.length) :
    Ends (NamesColumn path) IsPanic (arrow path (rt.arrays.tryNewStruct [key, val] [keys, vals] none))
      (Takes key.nullable key.dataType ks ∧ Takes val.nullable val.dataType vs) False
      fun _ => True := by
  have hvalsLen : vals.len = keys.len := by rw [len_of_map hvals, len_of_map hkeys, hlen]
  refine (tryNewStruct_entries rt path key val hvalsLen).ends.imp ?_ Iff.rfl (fun _ he => he)
    fun _ _ => trivial
  rw [takes_iff_admits hkeys, takes_iff_admits hvals]
  cases admits key.nullable keys.cells <;> cases admits val.nullable vals.cells <;> simp

theorem tryNewMap_ends (field : Field DataType) (hnullable : field.nullable = false)
    {values : List Value} {keys vals : Arr} (hlen : (flatRows mapRow values).length ≤ keys.len) :
    ∃ a, arrow path (rt.arrays.tryNewMap field
        ((offsets32 (rowLengths mapRow values)).map fun n => n.val.toNat) keys vals
        (nullBuffer values)) = .ok a ∧ a.cells.map Cell.isNull = values.map isNull := by
  have hend := last_offset_le mapRow values
  have hmask : Covers (nullBuffer values)
      (((offsets32 (rowLengths mapRow values)).map fun n => n.val.toNat).length - 1) := by
    rw [List.length_map, length_offsets32]
    exact covers_nullBuffer values
  rw [(rt.arrays.map_makes _ _ _ vals _).ok ⟨hend.trans hlen, hnullable, hmask⟩]
  refine ⟨_, rfl, ?_⟩
  rw [Arr.cells]
  apply map_isNull_maskCells fun _ => rfl
  rw [Segments.slices_length, List.length_map, length_offsets32]
  rfl

theorem settles_map {name keyName valName : String} {key val : DataType}
    {keyNullable valNullable sorted : Bool} (ihkey : Settles rt key) (ihval : Settles rt val) :
    Settles rt (.map ⟨name, .struct [⟨keyName, key, keyNullable⟩, ⟨valName, val, valNullable⟩],
      false⟩ sorted) := by
  intro path values
  have hentries := Ends.below (flattenLoop_ends (mapEntries_reports path) values)
  rw [buildColumnIn, Builds, Overflows]
  apply hentries.bind_iff
  · rintro r rfl
    apply (ihkey.child ".key" _).bind
    intro keys hkeys
    apply (ihval.child ".value" _).bind
    intro vals hvals
    apply (Ends.below (entries_ends ⟨keyName, key, keyNullable⟩ ⟨valName, val, valNullable⟩
      hkeys hvals (by simp))).bind
    intro _ _
    apply (offsetBuffer_ends _).bind_ok
    rintro offsets rfl
    exact tryNewMap_ends _ rfl (by rw [len_of_map hkeys, List.length_map])
  · simp
  · simp

/-! ## Every type -/

theorem buildColumnIn_ends (rt : Runtime) {dt : DataType} (hsupported : supported dt = true) :
    Settles rt dt := by
  refine supported_induct ?_ ?_ ?_ ?_ ?_ hsupported
  · exact fun dt hscalar h => settles_scalar hscalar h
  · exact fun _ _ _ ih => settles_list ih
  · exact fun _ _ _ _ hpos ih => settles_fixedSizeList hpos ih
  · exact fun _ hne ih => settles_struct hne ih
  · exact fun _ _ _ _ _ _ _ _ ihkey ihval => settles_map ihkey ihval

/-- With overflow checks a column is built or refused by an error that names it, unless its
rows overflow; an instant is split as without them, unless its exponent is extreme.  Without
overflow checks this is the conversion as the other results have it. -/
theorem conversion_safe_iff (rt : Runtime) (path : String) {dt : DataType}
    (hsupported : supported dt = true) (values : List Value) (inner : Value) :
    (((∃ column, buildColumnIn .checked rt dt path values = .ok column) ∨
        ∃ e, buildColumnIn .checked rt dt path values = .error e ∧ BelowColumn path e) ↔
      ¬ Overflows rt dt values) ∧
    (Msgpack.instantPartsIn .checked rt.fp inner = .ok (Msgpack.instantParts rt.fp inner) ↔
      ¬ extremeInstant inner = true) ∧
    buildColumnIn .wrapping rt dt path values = buildColumn rt dt path values ∧
    Msgpack.instantPartsIn .wrapping rt.fp inner = .ok (Msgpack.instantParts rt.fp inner) := by
  refine ⟨?_, ?_, buildColumnIn_wrapping rt dt path values,
    Msgpack.instantPartsIn_wrapping rt.fp inner⟩
  · apply (buildColumnIn_ends rt hsupported path values).benign_iff
    rintro e hpanic ⟨below, message, rfl⟩
    cases hpanic
  · rw [instantPartsIn_checked]
    cases extremeInstant inner <;> simp

/-- The decimal fraction `mantissa × 10^exponent` of 32-bit integers. -/
def fraction (exponent mantissa : I32) : Value :=
  .tag 4 (.array [.integer exponent.widen, .integer mantissa.widen])

theorem conversion_safe_iff_amount :
    supported (.decimal128 18 (I8.ofNat 2)) = true ∧
      ((∃ column, buildColumnIn .checked Runtime.bare (.decimal128 18 (I8.ofNat 2)) "amount"
          [fraction (I32.wrap (-2)) (I32.wrap 1234)] = .ok column) ∨
        ∃ e, buildColumnIn .checked Runtime.bare (.decimal128 18 (I8.ofNat 2)) "amount"
          [fraction (I32.wrap (-2)) (I32.wrap 1234)] = .error e ∧ BelowColumn "amount" e) ∧
      Msgpack.instantPartsIn .checked Runtime.bare.fp (fraction (I32.wrap (-3)) (I32.wrap 1500)) =
        .ok (Msgpack.instantParts Runtime.bare.fp (fraction (I32.wrap (-3)) (I32.wrap 1500))) := by
  have hsupported : supported (.decimal128 18 (I8.ofNat 2)) = true := by decide
  have h := conversion_safe_iff Runtime.bare "amount" hsupported
    [fraction (I32.wrap (-2)) (I32.wrap 1234)] (fraction (I32.wrap (-3)) (I32.wrap 1500))
  refine ⟨hsupported, h.1.2 ?_, h.2.1.2 (by decide)⟩
  rintro ⟨front, v, back, hsplit, -, ⟨-, hextreme⟩ | ⟨-, hbytes⟩⟩
  · have hv : v ∈ [fraction (I32.wrap (-2)) (I32.wrap 1234)] := by rw [hsplit]; simp
    rw [List.mem_singleton.1 hv] at hextreme
    cases hextreme
  · exact hbytes (bytesFit_of_maxOffset rfl _)

/-- The sum of exponent and scale can overflow, in columns and in instants, and so can its
negation. -/
theorem extreme_exponent_panics :
    supported (.decimal128 18 (I8.ofNat 2)) = true ∧
      buildColumnIn .checked Runtime.bare (.decimal128 18 (I8.ofNat 2)) "amount"
        [fraction (I32.wrap 0x7fffffff) (I32.wrap 1)] = .error (Arithmetic.overflow "add") ∧
      buildColumnIn .checked Runtime.bare (.timestamp .second none) "at"
        [.tag 1 (fraction (I32.wrap (-0x80000000)) (I32.wrap 1))] =
          .error (Arithmetic.overflow "negate") ∧
      Msgpack.instantPartsIn .checked Runtime.bare.fp (fraction (I32.wrap 0x7fffffff) (I32.wrap 1)) =
        .error (Arithmetic.overflow "add") :=
  ⟨by decide, rfl, rfl, rfl⟩

end VgiCbor.ValueOut
