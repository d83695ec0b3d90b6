import VgiCbor.Worker.CellTypes
import VgiCbor.Worker.CopyFrom
import VgiCbor.Worker.CopyTo

/-!
# COPY TO and COPY FROM are inverse

What `valueAt` writes for a cell, the row semantics of the same type reads back as
that cell (`rowCell_valueAt`).  With the row independence of the column builder this
carries over to whole tables (`copy_round_trip`).
-/

namespace VgiCbor.RoundTrip

open MachineInt Binary64 Outcome ValueIn ValueOut Copy

variable {rt : Runtime}

/-- The scalar types that read back exactly what was written.  A time of day may lose
digits. -/
def exactLeaf : DataType → Bool
  | .null | .time32 _ | .time64 _ => false
  | dt => supported dt

/-- The cell is written as a value that is not null and read back as itself.  Null cells are
left out here: they read back in every column. -/
def Exact (rt : Runtime) (dt : DataType) (c : Cell) : Prop :=
  ∃ v, valueAt rt dt c = .ok v ∧ isNull v = false ∧ leafCell rt dt v = some c

/-! ## Scalars -/

/-- Rescaling to the exponent's own scale changes nothing.  This is the case of a decimal that
is read by the column that wrote it. -/
theorem rescaled_same (mantissa : I128) {exponent : I32} {scale : I8}
    (h : exponent.val + scale.val = 0) : rescaled mantissa exponent scale = some mantissa := by
  obtain ⟨one, hone, hval⟩ := I128.exists_checkedPow10 (k := 0) (by omega)
  have hshift : (I32.wrap (exponent.val + scale.val)).val = 0 := by
    rw [h]
    exact I32.wrap_val_of_mem (by decide) (by decide)
  simp only [rescaled, hshift, Int.toNat_zero, le_refl, if_true, hone]
  rw [Option.bind_some, I128.checkedMul, Ranged.tryFrom_eq_some_iff, hval]
  simp

theorem exact_int {t : IntType} {n : Integer} (h : t.lo ≤ n.val ∧ n.val < t.hi) :
    Exact rt (.int t) (.int n) := by
  refine ⟨.integer n, rfl, rfl, ?_⟩
  show ((some (n.widen : I128)).bind fun n => (toNative t n).map Cell.int) = some (Cell.int n)
  rw [Option.bind_some, toNative, Ranged.widen_val, if_pos h, Ranged.tryFrom_val, Option.map_some]

/-- The parts of a tag-4 decimal fraction. -/
theorem decimalParts_fraction {e m : Value} {x mantissa : I128} (exponent : I32)
    (he : Bignum.fromValue e = some x) (hx : exponent.val = x.val)
    (hm : Bignum.fromValue m = some mantissa) :
    decimalParts (.tag 4 (.array [e, m])) = some (mantissa, exponent) := by
  have htry : (Ranged.tryFrom _ _ x.val : Option I32) = some exponent :=
    Ranged.tryFrom_eq_some_iff.2 hx
  simp only [decimalParts, Msgpack.decimalParts, if_true]
  rw [he, Option.bind_some, htry, Option.bind_some, hm, Option.map_some]

theorem exact_decimal (p : Nat) (s : I8) (n : I128) :
    Exact rt (.decimal128 p s) (.decimal n) := by
  refine ⟨.tag 4 (.array [negScale s, Bignum.toValue n]), rfl, rfl, ?_⟩
  have hge := s.ge
  have hlt := s.lt
  let exponent : I32 := ⟨-s.val, by omega, by omega⟩
  have hparts : decimalParts (.tag 4 (.array [negScale s, Bignum.toValue n])) =
      some (n, exponent) :=
    decimalParts_fraction exponent (x := ⟨-s.val, by omega, by omega⟩) rfl rfl
      (Bignum.fromValue_toValue n)
  simp only [leafCell, decimalOf, exactNumber, hparts]
  rw [rescaled_same n (show -s.val + s.val = 0 by omega), Option.map_some]

theorem exact_date {n : Integer} (h : -0x80000000 ≤ n.val ∧ n.val < 0x80000000) :
    Exact rt .date32 (.int n) := by
  refine ⟨.tag 100 (.integer n), rfl, rfl, ?_⟩
  have hdays : daysOf rt.fp (.tag 100 (.integer n)) = some (I64.wrap n.val) := rfl
  have hval : (I64.wrap n.val).val = n.val := I64.wrap_val_of_mem (by omega) (by omega)
  simp only [leafCell, hdays]
  rw [Option.bind_some, hval, Ranged.tryFrom_of_mem h.1 h.2, Option.map_some, Option.some.injEq,
    Cell.int.injEq]
  exact Ranged.ext_val rfl

theorem unitExp_val (unit : TimeUnit) : (unitExp unit).val = unitDigits unit := by
  cases unit <;> rfl

theorem unitDigits_le (unit : TimeUnit) : unitDigits unit ≤ 9 := by
  cases unit <;> decide

/-- Scaling a number of seconds up to the count of the unit. -/
theorem rescaled_up {q n : I128} {scale : I8} {k : Nat} (hk : k ≤ 38) (hscale : scale.val = k)
    (h : n.val = q.val * 10 ^ k) : rescaled q wholeNumber scale = some n := by
  obtain ⟨factor, hfactor, hval⟩ := I128.exists_checkedPow10 hk
  have hshift : (I32.wrap (wholeNumber.val + scale.val)).val = k := by
    rw [show wholeNumber.val + scale.val = k by simpa [wholeNumber] using hscale]
    exact I32.wrap_val_of_mem (by omega) (by omega)
  simp only [rescaled, hshift, Int.natCast_nonneg, if_true, Int.toNat_natCast, hfactor]
  rw [Option.bind_some, I128.checkedMul, Ranged.tryFrom_eq_some_iff, hval, h]

/-- An instant whose content is an exact number. -/
theorem timestampOf_exact {inner : Value} {unit : TimeUnit} {m : I128}
    (hexact : exactNumber inner (unitExp unit) = some (some m)) :
    timestampOf rt.fp (.tag 1 inner) unit = Ranged.tryFrom _ _ m.val := by
  have huntag : untagInstant (.tag 1 inner) = inner := rfl
  rw [timestampOf, huntag, hexact]
  exact Option.bind_some _ _

theorem exactNumber_timestamp (unit : TimeUnit) (n : Integer) :
    ∃ inner, timestampValue unit n = .tag 1 inner ∧ isNull inner = false ∧
      exactNumber inner (unitExp unit) = some (some n.widen) := by
  have hdigits := unitDigits_le unit
  have hunit := unitExp_val unit
  by_cases hwhole : n.val.tmod ((10 ^ unitDigits unit : Nat) : Int) = 0
  · refine ⟨.integer (n.tdiv (10 ^ unitDigits unit)), ?_, rfl, ?_⟩
    · simp only [timestampValue, if_pos hwhole]
    · have hmul : n.val = (n.tdiv (10 ^ unitDigits unit)).val * 10 ^ unitDigits unit := by
        have hdiv := Int.tdiv_mul_cancel (Int.dvd_of_tmod_eq_zero hwhole)
        push_cast at hdiv
        exact hdiv.symm
      have hscaled := rescaled_up (q := (n.tdiv (10 ^ unitDigits unit)).widen) (n := n.widen)
        (by omega) hunit hmul
      show some (rescaled _ _ _) = _
      rw [hscaled]
  · have hdigitsInt : ∀ u : TimeUnit, (-0x10000000000000000 : Int) ≤ -unitDigits u ∧
        (-unitDigits u : Int) < 0x10000000000000000 := by
      intro u
      cases u <;> decide
    refine ⟨.tag 4 (.array [.integer ⟨-unitDigits unit, (hdigitsInt unit).1, (hdigitsInt unit).2⟩,
      Bignum.toValue n.widen]), ?_, rfl, ?_⟩
    · simp only [timestampValue, if_neg hwhole]
    · have hparts := decimalParts_fraction (e := .integer ⟨-unitDigits unit,
        (hdigitsInt unit).1, (hdigitsInt unit).2⟩) (x := ⟨-unitDigits unit, by omega, by omega⟩)
        ⟨-unitDigits unit, by omega, by omega⟩ rfl rfl
        (Bignum.fromValue_toValue (n.widen : I128))
      simp only [exactNumber, hparts]
      rw [rescaled_same]
      show -(unitDigits unit : Int) + (unitExp unit).val = 0
      omega

theorem exact_timestamp (unit : TimeUnit) (tz : Option String) {n : Integer}
    (h : -0x8000000000000000 ≤ n.val ∧ n.val < 0x8000000000000000) :
    Exact rt (.timestamp unit tz) (.int n) := by
  obtain ⟨inner, hvalue, hnull, hexact⟩ := exactNumber_timestamp unit n
  refine ⟨.tag 1 inner, ?_, hnull, ?_⟩
  · rw [← hvalue]
    rfl
  · simp only [leafCell]
    rw [timestampOf_exact hexact, Ranged.widen_val, Ranged.tryFrom_of_mem h.1 h.2,
      Option.map_some, Option.some.injEq, Cell.int.injEq]
    exact Ranged.ext_val rfl

/-- Every scalar but the times of day is read back as it was written.  Times finer than a
microsecond are the ones that lose digits. -/
theorem exact_leaf (hfloat : ∀ x, rt.fp.narrow (rt.fp.widen x) = x) {dt : DataType}
    (hscalar : dt.isNested = false) (hleaf : exactLeaf dt = true) {c : Cell}
    (htyped : wellTyped dt c = true) (hnull : c.isNull = false) : Exact rt dt c := by
  cases dt <;> cases c <;> first
    | cases hnull; done
    | cases hscalar; done
    | cases hleaf; done
    | cases htyped; done
    | skip
  case boolean.bool b => exact ⟨.bool b, rfl, rfl, rfl⟩
  case int.int t n => exact exact_int (by simpa [wellTyped] using htyped)
  case float32.f32 x =>
    refine ⟨.float (rt.fp.widen x), rfl, rfl, ?_⟩
    show some (Cell.f32 (rt.fp.narrow (rt.fp.widen x))) = _
    rw [hfloat]
  case float64.f64 x => exact ⟨.float x, rfl, rfl, rfl⟩
  case decimal128.decimal p s n => exact exact_decimal p s n
  case utf8.text s => exact ⟨.text s, rfl, rfl, rfl⟩
  case largeUtf8.text s => exact ⟨.text s, rfl, rfl, rfl⟩
  case binary.bytes b => exact ⟨.bytes b, rfl, rfl, rfl⟩
  case largeBinary.bytes b => exact ⟨.bytes b, rfl, rfl, rfl⟩
  case fixedSizeBinary.bytes width b =>
    refine ⟨.bytes b, rfl, rfl, ?_⟩
    show (if b.length = width then some (Cell.bytes b) else none) = _
    rw [if_pos (by simpa [wellTyped] using htyped)]
  case date32.int n => exact exact_date (by simpa [wellTyped] using htyped)
  case timestamp.int unit tz n => exact exact_timestamp unit tz (by simpa [wellTyped] using htyped)

/-! ## Nested types -/

/-- The cell is written, and read back as itself. -/
def ReadsBack (rt : Runtime) (dt : DataType) (c : Cell) : Prop :=
  ∃ v, valueAt rt dt c = .ok v ∧ rowCell rt dt v = some c

theorem readsBack_null (dt : DataType) : ReadsBack rt dt .null :=
  ⟨.null, valueAt_null_cell rt _, rowCell_of_isNull dt isNull_null⟩

/-- Fields and their cells: the values written, and the cells read from them. -/
theorem readsBack_fields {fields : List (Field DataType)} {cells : List Cell}
    (h : List.Forall₂ (fun f c => ReadsBack rt f.dataType c) fields cells) :
    ∃ vs, rowValues rt fields cells = .ok vs ∧ vs.length = fields.length ∧
      ((fields.zip vs).mapM fun fv => rowCell rt fv.1.dataType fv.2) = some cells := by
  induction h with
  | nil => exact ⟨[], rfl, rfl, rfl⟩
  | @cons f c fs cs hfc _ ih =>
      obtain ⟨v, hwrite, hread⟩ := hfc
      obtain ⟨vs, hwrites, hlen, hreads⟩ := ih
      refine ⟨v :: vs, ?_, by rw [List.length_cons, hlen, List.length_cons], ?_⟩
      · have hrow : rowValues rt fs cs = .ok vs := hwrites
        unfold rowValues at hrow ⊢
        rw [List.zip_cons_cons, List.mapM_cons, hwrite, hrow]
        rfl
      · rw [List.zip_cons_cons, List.mapM_cons, hread, hreads]
        rfl

theorem valueAtFields_eq (fields : List (Field DataType)) (cells : List Cell) :
    valueAtFields rt fields cells = (rowValues rt fields cells).map fun vs =>
      (fields.map fun f => Value.text f.name).zip vs := by
  induction fields generalizing cells with
  | nil => rfl
  | cons f fs ih =>
      cases cells with
      | nil => rfl
      | cons c cs =>
          rw [valueAtFields, ih]
          unfold rowValues
          rw [List.zip_cons_cons, List.mapM_cons]
          cases valueAt rt f.dataType c with
          | error e => rfl
          | ok v =>
              cases ((fs.zip cs).mapM fun (c : Field DataType × Cell) =>
                valueAt rt c.1.dataType c.2) <;> rfl

/-- Among entries with distinct names, a name finds its own value, wherever it stands. -/
theorem find_named {fields : List (Field DataType)} {vs : List Value}
    (hnames : (fields.map Field.name).Nodup) {f : Field DataType} {v : Value}
    (h : (f, v) ∈ fields.zip vs) {p : Value → Bool} (hp : ∀ t, p (.text t) = (t == f.name)) :
    (((fields.map fun f => Value.text f.name).zip vs).find? fun e => p e.1) =
      some (.text f.name, v) := by
  induction fields generalizing vs with
  | nil => cases h
  | cons g gs ih =>
      cases vs with
      | nil => cases h
      | cons w ws =>
          rw [List.map_cons, List.nodup_cons] at hnames
          rw [List.map_cons, List.zip_cons_cons, List.find?_cons]
          rcases List.mem_cons.1 h with hhead | htail
          · cases hhead
            simp [hp]
          · have hne : g.name ≠ f.name := by
              rintro heq
              exact hnames.1 (heq ▸ List.mem_map_of_mem (List.of_mem_zip htail).1)
            simp only [hp, beq_eq_false_iff_ne.2 hne]
            exact ih hnames.2 htail

theorem rowFields_named {fields : List (Field DataType)} {vs : List Value}
    (hnames : (fields.map Field.name).Nodup) (hlen : vs.length = fields.length) :
    rowFields rt fields (.map ((fields.map fun f => Value.text f.name).zip vs)) =
      (fields.zip vs).mapM fun fv => rowCell rt fv.1.dataType fv.2 := by
  have hzip : (fields.zip vs).map Prod.fst = fields := List.map_fst_zip (Nat.le_of_eq hlen.symm)
  rw [rowFields_eq_mapM]
  conv_lhs => rw [← hzip, List.mapM_map]
  apply Traverse.mapM_congr
  intro fv hfv
  have hfind := find_named hnames (f := fv.1) (v := fv.2) hfv (p := fun k => isKey fv.1.name (untag k))
    fun t => rfl
  show rowCell rt fv.1.dataType (fieldOf fv.1.name _) = _
  congr 1
  show ((List.find? _ _).map Prod.snd).getD .null = fv.2
  rw [hzip, hfind]
  rfl

theorem readsBack_list {name : String} {child : DataType} {nullable : Bool} {items : List Cell}
    (h : ∀ c ∈ items, ReadsBack rt child c) (hadmits : admits nullable items = true) :
    ReadsBack rt (.list ⟨name, child, nullable⟩) (.list items) := by
  obtain ⟨vs, hwrite, hread⟩ := Traverse.exists_mapM_undone h
  refine ⟨.array vs, by rw [valueAt_list, hwrite]; rfl, ?_⟩
  show ((vs.mapM fun v => rowCell rt child v).bind fun cells =>
    if admits nullable cells then some (Cell.list cells) else none) = _
  rw [hread, Option.bind_some, if_pos hadmits]

theorem readsBack_fixedSizeList {name : String} {child : DataType} {nullable : Bool}
    {items : List Cell} (h : ∀ c ∈ items, ReadsBack rt child c)
    (hadmits : admits nullable items = true) :
    ReadsBack rt (.fixedSizeList ⟨name, child, nullable⟩ items.length) (.list items) := by
  obtain ⟨vs, hwrite, hread⟩ := Traverse.exists_mapM_undone h
  refine ⟨.array vs, by rw [valueAt_fixedSizeList, hwrite]; rfl, ?_⟩
  show (if vs.length = items.length then (vs.mapM fun v => rowCell rt child v).bind fun cells =>
    if admits nullable cells then some (Cell.list cells) else none else none) = _
  rw [if_pos (Traverse.length_of_mapM hread).symm, hread, Option.bind_some, if_pos hadmits]

theorem readsBack_struct {fields : List (Field DataType)} {cells : List Cell}
    (hnames : (fields.map Field.name).Nodup)
    (h : List.Forall₂ (fun f c => ReadsBack rt f.dataType c) fields cells)
    (hadmits : fieldsAdmit fields cells = true) :
    ReadsBack rt (.struct fields) (.struct cells) := by
  obtain ⟨vs, hwrite, hlen, hread⟩ := readsBack_fields h
  refine ⟨.map ((fields.map fun f => Value.text f.name).zip vs), ?_, ?_⟩
  · rw [valueAt_struct, valueAtFields_eq, hwrite]
    rfl
  · show ((rowFields rt fields (.map _)).bind fun cells =>
      if fieldsAdmit fields cells then some (Cell.struct cells) else none) = _
    rw [rowFields_named hnames hlen, hread, Option.bind_some, if_pos hadmits]

theorem readsBack_entries {key val : DataType} {entries : List (Cell × Cell)}
    (h : ∀ e ∈ entries, ReadsBack rt key e.1 ∧ ReadsBack rt val e.2) :
    ∃ vs, (entries.mapM fun e =>
        (valueAt rt key e.1).bind fun k => (valueAt rt val e.2).map fun v => (k, v)) = .ok vs ∧
      (vs.mapM fun e =>
        (rowCell rt key e.1).bind fun k => (rowCell rt val e.2).map fun c => (k, c)) =
          some entries := by
  apply Traverse.exists_mapM_undone
  intro e he
  obtain ⟨⟨k, hwriteKey, hreadKey⟩, v, hwriteVal, hreadVal⟩ := h e he
  refine ⟨(k, v), ?_, ?_⟩
  · rw [hwriteKey, hwriteVal]
    rfl
  · rw [hreadKey, hreadVal]
    rfl

theorem readsBack_map {name keyName valName : String} {key val : DataType}
    {keyNullable valNullable nullable sorted : Bool} {entries : List (Cell × Cell)}
    (h : ∀ e ∈ entries, ReadsBack rt key e.1 ∧ ReadsBack rt val e.2)
    (hadmits : (admits keyNullable (entries.map Prod.fst) &&
      admits valNullable (entries.map Prod.snd)) = true) :
    ReadsBack rt (.map ⟨name, .struct [⟨keyName, key, keyNullable⟩, ⟨valName, val, valNullable⟩],
      nullable⟩ sorted) (.map entries) := by
  obtain ⟨vs, hwrite, hread⟩ := readsBack_entries h
  refine ⟨.map vs, by rw [valueAt_map, hwrite]; rfl, ?_⟩
  show ((vs.mapM fun e =>
    (rowCell rt key e.1).bind fun k => (rowCell rt val e.2).map fun c => (k, c)).bind fun cells =>
      if admits keyNullable (cells.map Prod.fst) && admits valNullable (cells.map Prod.snd) then
        some (Cell.map cells) else none) = _
  rw [hread, Option.bind_some, if_pos hadmits]

/-- Every cell of a copyable type is read back as it was written.  This is the induction that
joins the encoder to the row semantics. -/
theorem rowCell_valueAt (hfloat : ∀ x, rt.fp.narrow (rt.fp.widen x) = x) {dt : DataType}
    (htype : builtFrom exactLeaf dt = true) {c : Cell} (htyped : wellTyped dt c = true) :
    ReadsBack rt dt c := by
  apply typed_induct _ _ _ _ _ _ htype htyped
  · exact readsBack_null
  · intro dt c hscalar hleaf htyped hnull
    obtain ⟨v, hwrite, hvalue, hread⟩ := exact_leaf hfloat hscalar hleaf htyped hnull
    refine ⟨v, hwrite, ?_⟩
    rw [rowCell_scalar hscalar (by cases dt <;> first | rfl | cases hleaf) hvalue, hread]
  · exact fun _ _ _ _ h hadmits => readsBack_list h hadmits
  · exact fun _ _ _ _ h hadmits => readsBack_fixedSizeList h hadmits
  · exact fun _ _ hnames h hadmits => readsBack_struct hnames h hadmits
  · exact fun _ _ _ _ _ _ _ _ _ _ h hadmits => readsBack_map h hadmits

/-! ## Tables -/

/-- An item of either shape gives every column its own value: by name, or by position. -/
theorem project_item {schema : Schema} {shape : RowShape} {vs : List Value}
    (hnames : (schema.map Field.name).Nodup) {i : Nat} (hi : i < schema.length)
    (hv : i < vs.length) :
    project shape schema[i].name i (shape.item schema vs) = vs[i] := by
  cases shape with
  | array => simp [project, RowShape.item, List.getElem?_eq_getElem hv]
  | map =>
      have hmem : (schema[i], vs[i]) ∈ schema.zip vs := by
        rw [← List.getElem_zip (h := by simp; omega)]
        exact List.getElem_mem _
      have hfind := find_named hnames hmem (p := isKey schema[i].name) fun t => rfl
      simp only [project, RowShape.item, hfind, Option.map_some, Option.getD_some]

/-- The item of a row converts back to the row.  Nothing of the wire format is in this yet. -/
theorem rowCells_item (hfloat : ∀ x, rt.fp.narrow (rt.fp.widen x) = x) (target : Target)
    {shape : RowShape} (hnames : (target.schema.map Field.name).Nodup)
    (hcolumns : ∀ f ∈ target.schema, builtFrom exactLeaf f.dataType = true) {cells : List Cell}
    (htyped : fieldsTyped target.schema cells = true)
    (hadmits : fieldsAdmit target.schema cells = true) :
    ∃ item, rowItem rt target.schema shape cells = .ok item ∧
      rowCells rt target shape item = some cells := by
  rw [fieldsTyped_iff] at htyped
  have hback : List.Forall₂ (fun f c => ReadsBack rt f.dataType c) target.schema cells := by
    rw [List.forall₂_iff_zip]
    exact ⟨htyped.length_eq, fun hmem => rowCell_valueAt hfloat
      (hcolumns _ (List.of_mem_zip hmem).1) (List.forall₂_zip htyped hmem)⟩
  obtain ⟨vs, hwrite, hlen, hread⟩ := readsBack_fields hback
  refine ⟨shape.item target.schema vs, by rw [rowItem, hwrite]; rfl, ?_⟩
  rw [rowCells, Traverse.mapM_eq_some_iff, List.forall₂_iff_get]
  rw [Traverse.mapM_eq_some_iff, List.forall₂_iff_get] at hread
  obtain ⟨hcount, hcell⟩ := hread
  simp only [List.length_zip, hlen, Nat.min_self, List.get_eq_getElem, List.getElem_zip] at hcount hcell
  refine ⟨by rw [List.length_zipIdx, hcount], fun i hi hi' => ?_⟩
  rw [List.length_zipIdx] at hi
  have htakes : columnTakes target.schema[i] cells[i] = true := by
    have hmem : (target.schema[i], cells[i]) ∈ target.schema.zip cells := by
      rw [← List.getElem_zip (h := by simp; omega)]
      exact List.getElem_mem _
    have hadmit := List.all_eq_true.1 hadmits _ hmem
    simp only [columnTakes]
    simp only [Bool.or_eq_true] at hadmit ⊢
    exact hadmit.imp id Or.inr
  simp only [List.get_eq_getElem, List.getElem_zipIdx, Nat.zero_add, cellAt]
  rw [project_item hnames hi (by omega), hcell i hi hi', Option.filter_some, if_pos htakes]

/-- A table of nullable columns of copyable types, and its rows.  The names of the columns are
distinct, as those of an SQL table are. -/
structure Table where
  schema : Schema
  nonempty : schema ≠ []
  nullable : ∀ f ∈ schema, f.nullable = true
  names : (schema.map Field.name).Nodup
  types : ∀ f ∈ schema, builtFrom exactLeaf f.dataType = true
  rows : List (List Cell)
  typed : ∀ cells ∈ rows, fieldsTyped schema cells = true

theorem supported_of_exactLeaf {dt : DataType} (hleaf : exactLeaf dt = true) :
    supported dt = true := by
  cases dt <;> first
    | exact hleaf
    | cases hleaf

/-- A copyable table can be loaded back. -/
def Table.target (table : Table) : Target where
  schema := table.schema
  nonempty := table.nonempty
  supported := supportedFields_iff.2 fun f hf =>
    supported_of_builtFrom (fun _ _ => supported_of_exactLeaf) (table.types f hf)

theorem Table.admits (table : Table) (cells : List Cell) :
    fieldsAdmit table.schema cells = true := by
  rw [fieldsAdmit, List.all_eq_true]
  rintro ⟨f, c⟩ hfc
  simp only [table.nullable f (List.of_mem_zip hfc).1, Bool.true_or]

/-- Every row of a table is written as an item that converts back to the row.  The items are
in the order of the rows. -/
theorem Table.items_convert (table : Table) (hfloat : ∀ x, rt.fp.narrow (rt.fp.widen x) = x)
    (shape : RowShape) :
    ∃ items, table.rows.mapM (rowItem rt table.schema shape) = .ok items ∧
      items.mapM (rowCells rt table.target shape) = some table.rows := by
  apply Traverse.exists_mapM_undone
  intro cells hcells
  exact rowCells_item hfloat table.target table.names table.types
    (table.typed cells hcells) (table.admits cells)

/-- COPY TO followed by COPY FROM is the identity: the items written for the rows of
a table build one batch again, with exactly these rows, unless the flattened children
of some list or map column or the bytes of some text or blob column exceed the offsets. -/
theorem copy_round_trip (rt : Runtime) (hfloat : ∀ x, rt.fp.narrow (rt.fp.widen x) = x)
    (table : Table) (shape : RowShape) :
    ∃ items, table.rows.mapM (rowItem rt table.schema shape) = .ok items ∧
      (RowsFit rt table.target shape items →
        ∃ batch, buildBatch rt table.schema shape items = .ok batch ∧
          batch.rows = table.rows) := by
  obtain ⟨items, hitems, hback⟩ := table.items_convert hfloat shape
  refine ⟨items, hitems, fun hfits => ?_⟩
  have hok : (buildBatch rt table.target.schema shape items).isOk = true := by
    rw [buildBatch_isOk_iff hfits]
    intro item hitem
    rw [converts_iff rt (hfits.single hitem)]
    exact Traverse.mapM_isSome_iff.1 (Option.isSome_of_eq_some hback) item hitem
  cases hbatch : buildBatch rt table.target.schema shape items with
  | error e =>
      rw [hbatch] at hok
      cases hok
  | ok batch =>
      have hrows := buildBatch_rows hfits hbatch
      rw [hback, Option.some.injEq] at hrows
      exact ⟨batch, hbatch, hrows.symm⟩

/-- Items of one table that do not build a batch, although they are all written without an
error. -/
def Unloadable (rt : Runtime) (schema : Schema) (rows : List (List Cell)) : Prop :=
  (∀ cells ∈ rows, fieldsTyped schema cells = true) ∧
    ∃ items, rows.mapM (rowItem rt schema .map) = .ok items ∧
      (buildBatch rt schema .map items).isOk = false

theorem wrap_overflow {n : Nat} (h : n = 0x80000000) : (I32.wrap n).val < 0 := by
  subst h
  decide

theorem offsetBuffer_overflow (rt : Runtime) {n : Nat} (h : n = 0x80000000) :
    ∃ message, rt.arrays.offsetBuffer [⟨0, by decide, by decide⟩, I32.wrap n] =
      .error (.panic message) := by
  have hneg := wrap_overflow h
  -- The bound itself is never evaluated again.
  clear h
  generalize I32.wrap n = b at hneg ⊢
  apply rt.arrays.offsetBuffer_panics
  intro hgood
  have hle := (List.pairwise_cons.1 hgood.2).1 b.val List.mem_cons_self
  exact absurd hle (Int.not_le.2 hneg)

/-- The end of a list of `2^31` elements does not fit the 32-bit offsets: it wraps around, and
the offsets are out of order. -/
theorem flattenLists_overflow (rt : Runtime) (path : String) (items : List Value)
    (hlen : items.length = 0x80000000) : ∃ e, flattenLists rt path [.array items] = .error e := by
  have hitems : listItems path (.array items) = .ok items := rfl
  have hloop : flattenLoop (listItems path) [.array items] [⟨0, by decide, by decide⟩] [] =
      .ok ([⟨0, by decide, by decide⟩, I32.wrap items.length], items) := by
    simp only [flattenLoop, hitems, Except.bind, List.nil_append, List.singleton_append]
  obtain ⟨message, hoffsets⟩ := offsetBuffer_overflow rt hlen
  clear hlen
  refine ⟨.panic message, ?_⟩
  rw [flattenLists, hloop]
  rw [Except.bind]
  dsimp only
  rw [hoffsets]
  rfl

theorem unloadable_long_list (rt : Runtime) {items : List Cell}
    (hlen : items.length = 0x80000000) (hnull : ∀ c ∈ items, c = .null) :
    Unloadable rt [⟨"c", .list ⟨"item", .boolean, true⟩, true⟩] [[.list items]] := by
  have hback : ∀ c ∈ items, ReadsBack rt .boolean c := by
    intro c hc
    rw [hnull c hc]
    exact readsBack_null _
  obtain ⟨vs, hwrite, hread⟩ := Traverse.exists_mapM_undone hback
  obtain ⟨e, hflat⟩ := flattenLists_overflow rt "c" vs
    (by rw [← Traverse.length_of_mapM hread, hlen])
  constructor
  · have hcells : items.all (fun c => wellTyped .boolean c) = true := by
      rw [List.all_eq_true]
      intro c hc
      rw [hnull c hc]
      rfl
    simp [fieldsTyped, wellTyped, admits, hcells]
  · refine ⟨[.map [(.text "c", .array vs)]], ?_, ?_⟩
    · simp only [List.mapM_cons, List.mapM_nil, rowItem, rowValues, List.zip_cons_cons,
        List.zip_nil_right, valueAt, hwrite]
      rfl
    · have hproject : project .map "c" 0 (.map [(.text "c", .array vs)]) = .array vs := rfl
      simp only [buildBatch, List.zipIdx_cons, List.zipIdx_nil, List.mapM_cons, List.map_cons,
        List.map_nil, hproject, buildColumn, hflat]
      rfl

/-- Rows with a blob of one gibibyte each. -/
theorem unloadable_gibibytes {b : Bytes} (hlen : b.length = 0x40000000) :
    Unloadable .bare [⟨"data", .binary, true⟩] [[.bytes b], [.bytes b]] := by
  have hbatch := (gibibytes_overflow hlen).2
  clear hlen
  refine ⟨by simp [fieldsTyped, wellTyped], [dataRow b, dataRow b], rfl, ?_⟩
  exact congrArg Except.isOk hbatch

/-- What COPY cannot carry: a table without columns, a struct without fields, lists or maps
with more elements than 32-bit offsets count, and texts or blobs with more bytes. -/
theorem copy_round_trip_gaps :
    Unloadable .bare [] [[]] ∧
    Unloadable .bare [⟨"c", .struct [], true⟩] [[.struct []]] ∧
    Unloadable .bare [⟨"c", .list ⟨"item", .boolean, true⟩, true⟩]
      [[.list (List.replicate 0x80000000 .null)]] ∧
    Unloadable .bare [⟨"data", .binary, true⟩]
      [[.bytes (List.replicate 0x40000000 0)], [.bytes (List.replicate 0x40000000 0)]] := by
  refine ⟨⟨by simp [fieldsTyped], _, rfl, rfl⟩, ⟨by simp [fieldsTyped, wellTyped, fieldsAdmit],
    _, rfl, rfl⟩, ?_, ?_⟩
  · exact unloadable_long_list _ List.length_replicate fun c => List.eq_of_mem_replicate
  · exact unloadable_gibibytes List.length_replicate

/-- A float column, and a struct column with a map and a list inside. -/
def sampleTable : Table where
  schema := [⟨"x", .float32, true⟩, ⟨"s", .struct [
    ⟨"m", .map ⟨"entries", .struct [⟨"key", .utf8, false⟩, ⟨"value", .decimal128 38 ⟨2, by decide, by decide⟩, true⟩],
      false⟩ false, true⟩,
    ⟨"l", .list ⟨"item", .timestamp .millisecond none, true⟩, true⟩], true⟩]
  nonempty := by simp
  nullable := by decide
  names := by decide
  types := by decide
  rows := [
    [.f32 ⟨0x3F800000⟩, .struct [.map [(.text "k", .decimal ⟨-5, by decide, by decide⟩)],
      .list [.int beforeEpoch, .null]]],
    [.null, .struct [.null, .list []]],
    [.f32 ⟨0xFF800000⟩, .null]]
  typed := by decide

theorem copy_round_trip_sample :
    ∃ items, sampleTable.rows.mapM (rowItem .bare sampleTable.schema .map) = .ok items ∧
      ∃ batch, buildBatch .bare sampleTable.schema .map items = .ok batch ∧
        batch.rows = sampleTable.rows := by
  obtain ⟨items, hitems, hload⟩ := copy_round_trip .bare F64.rebias_rebias sampleTable .map
  have hfits : ∃ items, sampleTable.rows.mapM (rowItem .bare sampleTable.schema .map) =
      .ok items ∧ RowsFit .bare sampleTable.target .map items := by
    refine ⟨_, rfl, ?_⟩
    unfold RowsFit
    decide
  obtain ⟨items', hitems', hfits⟩ := hfits
  obtain rfl : items' = items := Except.ok.inj (hitems'.symm.trans hitems)
  exact ⟨items', hitems, hload hfits⟩

end VgiCbor.RoundTrip
