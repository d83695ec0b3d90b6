import VgiCbor.Worker.MsgpackWire

/-!
# Canonical row files

With the `canonical` option COPY TO sorts the entries of every map of a row: the row
itself, its structs and its MAP cells.  COPY FROM looks columns and fields up by name, so
only the entries of MAP cells come back in another order (`canonical_rows_read_back`).
-/

namespace VgiCbor.RoundTrip

open MachineInt Binary64 ValueIn ValueOut Copy MsgpackWire

/-! ## Cells up to the order of entries -/

/-- The second cell is the first with the entries of maps permuted, at any depths.  It is the
equality of cells as SQL maps, where the order of entries has no meaning. -/
inductive SameEntries : Cell → Cell → Prop
  | refl (c) : SameEntries c c
  | trans {b c d} (h₁ : SameEntries b c) (h₂ : SameEntries c d) : SameEntries b d
  | item {c d} (before after : List Cell) (h : SameEntries c d) :
      SameEntries (.list (before ++ c :: after)) (.list (before ++ d :: after))
  | field {c d} (before after : List Cell) (h : SameEntries c d) :
      SameEntries (.struct (before ++ c :: after)) (.struct (before ++ d :: after))
  | entry {k k' c d} (before after : List (Cell × Cell)) (hk : SameEntries k k')
      (h : SameEntries c d) :
      SameEntries (.map (before ++ (k, c) :: after)) (.map (before ++ (k', d) :: after))
  | perm {es fs : List (Cell × Cell)} (h : es.Perm fs) : SameEntries (.map es) (.map fs)

/-- Both halves of an entry. -/
def SameEntry (e f : Cell × Cell) : Prop := SameEntries e.1 f.1 ∧ SameEntries e.2 f.2

namespace SameEntries

/-- What holds for one part of a container holds for all of them at once, one part after the
other. -/
theorem forall₂ {α : Type} {R : α → α → Prop} {wrap : List α → Cell}
    (hwrap : ∀ before after a b, R a b →
      SameEntries (wrap (before ++ a :: after)) (wrap (before ++ b :: after)))
    {xs ys : List α} (h : List.Forall₂ R xs ys) (before : List α) :
    SameEntries (wrap (before ++ xs)) (wrap (before ++ ys)) := by
  induction h generalizing before with
  | nil => exact .refl _
  | @cons a b xs ys hab _ ih =>
      have hrest := ih (before ++ [b])
      rw [List.append_assoc, List.append_assoc] at hrest
      exact (hwrap before xs a b hab).trans hrest

theorem list {cs ds : List Cell} (h : List.Forall₂ SameEntries cs ds) :
    SameEntries (.list cs) (.list ds) :=
  forall₂ (fun before after _ _ => .item before after) h []

theorem struct {cs ds : List Cell} (h : List.Forall₂ SameEntries cs ds) :
    SameEntries (.struct cs) (.struct ds) :=
  forall₂ (fun before after _ _ => .field before after) h []

theorem map {es fs : List (Cell × Cell)} (h : List.Forall₂ SameEntry es fs) :
    SameEntries (.map es) (.map fs) :=
  forall₂ (fun before after _ _ hef => .entry before after hef.1 hef.2) h []

theorem isNull_eq {c d : Cell} (h : SameEntries c d) : d.isNull = c.isNull := by
  induction h with
  | refl c => rfl
  | trans _ _ ih₁ ih₂ => exact ih₂.trans ih₁
  | item before after _ _ => rfl
  | field before after _ _ => rfl
  | entry before after _ _ _ _ => rfl
  | perm h => rfl

theorem map_isNull {cs ds : List Cell} (h : List.Forall₂ SameEntries cs ds) :
    ds.map Cell.isNull = cs.map Cell.isNull := by
  induction h with
  | nil => rfl
  | cons hcd _ ih => rw [List.map_cons, List.map_cons, hcd.isNull_eq, ih]

end SameEntries

mutual

/-- No MAP cell stands in the cell, at any depth. -/
def mapless : Cell → Bool
  | .list items => allMapless items
  | .struct cells => allMapless cells
  | .map _ => false
  | _ => true

/-- Every cell is such a cell. -/
def allMapless : List Cell → Bool
  | [] => true
  | c :: cs => mapless c && allMapless cs

end

theorem allMapless_iff {cells : List Cell} :
    allMapless cells = true ↔ ∀ c ∈ cells, mapless c = true := by
  induction cells with
  | nil => simp [allMapless]
  | cons c cs ih => simp [allMapless, ih]

/-- Without MAP cells there is nothing to permute. -/
theorem SameEntries.eq_of_mapless {c d : Cell} (h : SameEntries c d) (hc : mapless c = true) :
    c = d := by
  induction h with
  | refl c => rfl
  | trans _ _ ih₁ ih₂ =>
      obtain rfl := ih₁ hc
      exact ih₂ hc
  | item before after _ ih =>
      rw [mapless, allMapless_iff] at hc
      rw [ih (hc _ (by simp))]
  | field before after _ ih =>
      rw [mapless, allMapless_iff] at hc
      rw [ih (hc _ (by simp))]
  | entry before after _ _ _ _ => cases hc
  | perm h => cases hc

/-! ## Written values in normal form -/

variable {rt : Runtime} (codec : CborCodec) (mode : Canon)

theorem canonicalize_array (vs : List Value) :
    canonicalize codec mode (.array vs) = .array (vs.map (canonicalize codec mode)) := by
  rw [canonicalize, canonicalizeItems_eq_map]

/-- The entries of a canonicalized map are a permutation of the canonicalized entries.
Nothing below looks at which permutation it is. -/
theorem canonicalize_map_perm (es : List (Value × Value)) :
    ∃ sorted, canonicalize codec mode (.map es) = .map sorted ∧
      sorted.Perm (es.map (canonicalizeEntry codec mode)) := by
  refine ⟨_, by rw [canonicalize], ?_⟩
  rw [canonicalizeEntries_eq_map]
  exact KeySort.sortBy_perm _ _ _

theorem canonicalize_bignum (n : I128) :
    canonicalize codec mode (Bignum.toValue n) = Bignum.toValue n := by
  unfold Bignum.toValue
  split
  · rfl
  · split_ifs <;> rfl

/-- A scalar is written without maps, so the normal form leaves it alone. -/
theorem canonicalize_scalar {dt : DataType} (hscalar : dt.isNested = false) {c : Cell} {v : Value}
    (hwrite : valueAt rt dt c = .ok v) : canonicalize codec mode v = v := by
  cases dt <;> cases c <;> first
    | cases hscalar; done
    | (cases hwrite; rfl)
    | (cases hwrite; done)
    | skip
  case decimal128.decimal p s n =>
    cases hwrite
    rw [canonicalize, canonicalize_array, List.map_cons, List.map_cons, canonicalize_bignum]
    rfl
  case time32.int unit n => cases unit <;> cases hwrite <;> rfl
  case time64.int unit n => cases unit <;> cases hwrite <;> rfl
  case timestamp.int unit tz n =>
    cases hwrite
    unfold timestampValue
    simp only [canonicalize]
    split_ifs
    · rfl
    · rw [canonicalize, canonicalize_array, List.map_cons, List.map_cons, canonicalize_bignum]
      rfl

/-- The cell is written, and read back from the normal form up to the order of entries.  The
induction over the types of cells proves this of every copyable one. -/
def ReadsCanonical (rt : Runtime) (dt : DataType) (c : Cell) : Prop :=
  ∃ v d, valueAt rt dt c = .ok v ∧ rowCell rt dt (canonicalize codec mode v) = some d ∧
    SameEntries c d

variable {codec mode}

theorem readsCanonical_null (dt : DataType) : ReadsCanonical codec mode rt dt .null :=
  ⟨.null, .null, valueAt_null_cell rt _, rowCell_of_isNull dt isNull_null, .refl _⟩

theorem readsCanonical_scalar (hfloat : ∀ x, rt.fp.narrow (rt.fp.widen x) = x) {dt : DataType}
    (hscalar : dt.isNested = false) (hleaf : exactLeaf dt = true) {c : Cell}
    (htyped : wellTyped dt c = true) (hnull : c.isNull = false) :
    ReadsCanonical codec mode rt dt c := by
  obtain ⟨v, hwrite, hvalue, hread⟩ := exact_leaf hfloat hscalar hleaf htyped hnull
  refine ⟨v, c, hwrite, ?_, .refl _⟩
  rw [canonicalize_scalar codec mode hscalar hwrite,
    rowCell_scalar hscalar (by cases dt <;> first | rfl | cases hleaf) hvalue, hread]

/-- The items of a list, one after the other. -/
theorem readsCanonical_items {dt : DataType} {items : List Cell}
    (h : ∀ c ∈ items, ReadsCanonical codec mode rt dt c) :
    ∃ vs ds, (items.mapM fun c => valueAt rt dt c) = .ok vs ∧
      ((vs.map (canonicalize codec mode)).mapM fun v => rowCell rt dt v) = some ds ∧
      List.Forall₂ SameEntries items ds := by
  induction items with
  | nil => exact ⟨[], [], rfl, rfl, .nil⟩
  | cons c cs ih =>
      obtain ⟨v, d, hwrite, hread, hsame⟩ := h c List.mem_cons_self
      obtain ⟨vs, ds, hwrites, hreads, hsames⟩ := ih fun c' hc' => h c' (List.mem_cons_of_mem _ hc')
      refine ⟨v :: vs, d :: ds, ?_, ?_, .cons hsame hsames⟩
      · rw [List.mapM_cons, hwrite, hwrites]
        rfl
      · rw [List.map_cons, List.mapM_cons, hread, hreads]
        rfl

/-- Fields and their cells, for a struct or for the columns of a row. -/
theorem readsCanonical_fields {fields : List (Field DataType)} {cells : List Cell}
    (h : List.Forall₂ (fun f c => ReadsCanonical codec mode rt f.dataType c) fields cells) :
    ∃ vs ds, rowValues rt fields cells = .ok vs ∧ vs.length = fields.length ∧
      ((fields.zip (vs.map (canonicalize codec mode))).mapM fun fv =>
        rowCell rt fv.1.dataType fv.2) = some ds ∧
      List.Forall₂ SameEntries cells ds := by
  induction h with
  | nil => exact ⟨[], [], rfl, rfl, rfl, .nil⟩
  | @cons f c fs cs hfc _ ih =>
      obtain ⟨v, d, hwrite, hread, hsame⟩ := hfc
      obtain ⟨vs, ds, hwrites, hlen, hreads, hsames⟩ := ih
      refine ⟨v :: vs, d :: ds, ?_, by rw [List.length_cons, hlen, List.length_cons], ?_,
        .cons hsame hsames⟩
      · unfold rowValues at hwrites ⊢
        rw [List.zip_cons_cons, List.mapM_cons, hwrite, hwrites]
        rfl
      · rw [List.map_cons, List.zip_cons_cons, List.mapM_cons, hread, hreads]
        rfl

/-- The entries of a MAP cell. -/
theorem readsCanonical_entries {key val : DataType} {entries : List (Cell × Cell)}
    (h : ∀ e ∈ entries, ReadsCanonical codec mode rt key e.1 ∧
      ReadsCanonical codec mode rt val e.2) :
    ∃ vs ds, (entries.mapM fun e =>
        (valueAt rt key e.1).bind fun k => (valueAt rt val e.2).map fun v => (k, v)) = .ok vs ∧
      ((vs.map (canonicalizeEntry codec mode)).mapM fun e =>
        (rowCell rt key e.1).bind fun k => (rowCell rt val e.2).map fun c => (k, c)) = some ds ∧
      List.Forall₂ SameEntry entries ds := by
  induction entries with
  | nil => exact ⟨[], [], rfl, rfl, .nil⟩
  | cons e es ih =>
      obtain ⟨⟨k, dk, hwriteKey, hreadKey, hsameKey⟩, v, dv, hwriteVal, hreadVal, hsameVal⟩ :=
        h e List.mem_cons_self
      obtain ⟨vs, ds, hwrites, hreads, hsames⟩ := ih fun e' he' => h e' (List.mem_cons_of_mem _ he')
      refine ⟨(k, v) :: vs, (dk, dv) :: ds, ?_, ?_, .cons ⟨hsameKey, hsameVal⟩ hsames⟩
      · rw [List.mapM_cons, hwriteKey, hwrites, hwriteVal]
        rfl
      · rw [List.map_cons, List.mapM_cons, canonicalizeEntry, hreadKey, hreads, hreadVal]
        rfl

/-! ## Containers -/

theorem readsCanonical_list {name : String} {child : DataType} {nullable : Bool}
    {items : List Cell} (h : ∀ c ∈ items, ReadsCanonical codec mode rt child c)
    (hadmits : admits nullable items = true) :
    ReadsCanonical codec mode rt (.list ⟨name, child, nullable⟩) (.list items) := by
  obtain ⟨vs, ds, hwrite, hread, hsame⟩ := readsCanonical_items h
  rw [← admits_congr nullable (SameEntries.map_isNull hsame)] at hadmits
  refine ⟨.array vs, .list ds, by rw [valueAt_list, hwrite]; rfl, ?_, .list hsame⟩
  rw [canonicalize_array]
  show ((vs.map (canonicalize codec mode)).mapM fun v => rowCell rt child v).bind (fun cells =>
    if admits nullable cells then some (Cell.list cells) else none) = _
  rw [hread, Option.bind_some, if_pos hadmits]

theorem readsCanonical_fixedSizeList {name : String} {child : DataType} {nullable : Bool}
    {items : List Cell} (h : ∀ c ∈ items, ReadsCanonical codec mode rt child c)
    (hadmits : admits nullable items = true) :
    ReadsCanonical codec mode rt (.fixedSizeList ⟨name, child, nullable⟩ items.length)
      (.list items) := by
  obtain ⟨vs, ds, hwrite, hread, hsame⟩ := readsCanonical_items h
  rw [← admits_congr nullable (SameEntries.map_isNull hsame)] at hadmits
  have hlen : (vs.map (canonicalize codec mode)).length = items.length :=
    (Traverse.length_of_mapM hread).symm.trans hsame.length_eq.symm
  refine ⟨.array vs, .list ds, by rw [valueAt_fixedSizeList, hwrite]; rfl, ?_, .list hsame⟩
  rw [canonicalize_array]
  show (if (vs.map (canonicalize codec mode)).length = items.length then
    ((vs.map (canonicalize codec mode)).mapM fun v => rowCell rt child v).bind (fun cells =>
      if admits nullable cells then some (Cell.list cells) else none) else none) = _
  rw [if_pos hlen, hread, Option.bind_some, if_pos hadmits]

/-- Under distinct names at most one entry stands under a given name.  So a search by name
does not depend on the order. -/
theorem named_once {fields : List (Field DataType)} (hnames : (fields.map Field.name).Nodup)
    (ws : List Value) {name : String} {p : Value → Bool} (hp : ∀ t, p (.text t) = (t == name)) :
    ((fields.map fun f => Value.text f.name).zip ws).Pairwise fun e f =>
      ¬ (p e.1 = true ∧ p f.1 = true) := by
  induction fields generalizing ws with
  | nil => exact .nil
  | cons f fs ih =>
      cases ws with
      | nil => exact .nil
      | cons w ws =>
          rw [List.map_cons, List.nodup_cons] at hnames
          rw [List.map_cons, List.zip_cons_cons, List.pairwise_cons]
          refine ⟨?_, ih hnames.2 ws⟩
          rintro ⟨key, v⟩ hmem ⟨hf, hkey⟩
          obtain ⟨g, hg, rfl⟩ := List.mem_map.1 (List.of_mem_zip hmem).1
          simp only [hp, beq_iff_eq] at hf hkey
          exact hnames.1 (List.mem_map.2 ⟨g, hg, hkey.trans hf.symm⟩)

/-- The entries of a struct or a row under its names, in normal form: the same names over
values in normal form, in some order. -/
theorem canonicalize_named (fields : List (Field DataType)) (vs : List Value) :
    ∃ sorted, canonicalize codec mode (.map ((fields.map fun f => Value.text f.name).zip vs)) =
        .map sorted ∧
      sorted.Perm ((fields.map fun f => Value.text f.name).zip
        (vs.map (canonicalize codec mode))) := by
  obtain ⟨sorted, hcanon, hperm⟩ := canonicalize_map_perm codec mode
    ((fields.map fun f => Value.text f.name).zip vs)
  refine ⟨sorted, hcanon, hperm.trans (.of_eq ?_)⟩
  rw [List.zip_map_right, List.zip_map_left, List.map_map, List.map_map]
  rfl

/-- A struct in normal form has the same fields, since they are found by name. -/
theorem rowFields_perm {fields : List (Field DataType)} (hnames : (fields.map Field.name).Nodup)
    {ws : List Value} {es : List (Value × Value)}
    (hperm : es.Perm ((fields.map fun f => Value.text f.name).zip ws)) :
    rowFields rt fields (.map es) =
      rowFields rt fields (.map ((fields.map fun f => Value.text f.name).zip ws)) := by
  rw [rowFields_eq_mapM, rowFields_eq_mapM]
  apply Traverse.mapM_congr
  intro f hf
  have honce := @named_once _ hnames ws f.name (fun k => isKey f.name (untag k))
    fun t => rfl
  have hfind := Traverse.find?_perm hperm.symm honce
  simp only [fieldOf, untag]
  rw [hfind]

theorem readsCanonical_struct {fields : List (Field DataType)} {cells : List Cell}
    (hnames : (fields.map Field.name).Nodup)
    (h : List.Forall₂ (fun f c => ReadsCanonical codec mode rt f.dataType c) fields cells)
    (hadmits : fieldsAdmit fields cells = true) :
    ReadsCanonical codec mode rt (.struct fields) (.struct cells) := by
  obtain ⟨vs, ds, hwrite, hlen, hread, hsame⟩ := readsCanonical_fields h
  rw [← fieldsAdmit_congr fields (SameEntries.map_isNull hsame)] at hadmits
  obtain ⟨sorted, hcanon, hperm⟩ := @canonicalize_named codec mode fields vs
  refine ⟨.map ((fields.map fun f => Value.text f.name).zip vs), .struct ds, ?_, ?_,
    .struct hsame⟩
  · rw [valueAt_struct, valueAtFields_eq, hwrite]
    rfl
  · rw [hcanon]
    show ((rowFields rt fields (.map sorted)).bind fun cells =>
      if fieldsAdmit fields cells then some (Cell.struct cells) else none) = _
    rw [rowFields_perm hnames hperm, rowFields_named hnames (by rw [List.length_map, hlen]), hread,
      Option.bind_some, if_pos hadmits]

theorem admits_perm (nullable : Bool) {cs ds : List Cell} (h : cs.Perm ds) :
    admits nullable cs = admits nullable ds := by
  rw [admits, admits, h.any_eq]

/-- Keys, and values, that are the same up to the order of entries are null where they were. -/
theorem map_isNull_entries {es fs : List (Cell × Cell)} (h : List.Forall₂ SameEntry es fs) :
    (fs.map Prod.fst).map Cell.isNull = (es.map Prod.fst).map Cell.isNull ∧
      (fs.map Prod.snd).map Cell.isNull = (es.map Prod.snd).map Cell.isNull := by
  constructor
  · exact SameEntries.map_isNull
      (List.forall₂_map_left_iff.2 (List.forall₂_map_right_iff.2 (h.imp fun _ _ hef => hef.1)))
  · exact SameEntries.map_isNull
      (List.forall₂_map_left_iff.2 (List.forall₂_map_right_iff.2 (h.imp fun _ _ hef => hef.2)))

theorem readsCanonical_map {name keyName valName : String} {key val : DataType}
    {keyNullable valNullable nullable sorted : Bool} {entries : List (Cell × Cell)}
    (h : ∀ e ∈ entries, ReadsCanonical codec mode rt key e.1 ∧
      ReadsCanonical codec mode rt val e.2)
    (hadmits : (admits keyNullable (entries.map Prod.fst) &&
      admits valNullable (entries.map Prod.snd)) = true) :
    ReadsCanonical codec mode rt (.map ⟨name, .struct [⟨keyName, key, keyNullable⟩,
      ⟨valName, val, valNullable⟩], nullable⟩ sorted) (.map entries) := by
  obtain ⟨vs, ds, hwrite, hread, hsame⟩ := readsCanonical_entries h
  obtain ⟨es, hcanon, hperm⟩ := canonicalize_map_perm codec mode vs
  obtain ⟨ds', hread', hsorted⟩ := Traverse.mapM_perm hperm hread
  have hkeep : (admits keyNullable (ds'.map Prod.fst) &&
      admits valNullable (ds'.map Prod.snd)) = true := by
    obtain ⟨hkeys, hvals⟩ := map_isNull_entries hsame
    rw [admits_perm _ (hsorted.map Prod.fst), admits_perm _ (hsorted.map Prod.snd),
      admits_congr _ hkeys, admits_congr _ hvals, hadmits]
  refine ⟨.map vs, .map ds', by rw [valueAt_map, hwrite]; rfl, ?_,
    (SameEntries.map hsame).trans (.perm hsorted.symm)⟩
  rw [hcanon]
  show ((es.mapM fun e => (rowCell rt key e.1).bind fun k =>
    (rowCell rt val e.2).map fun c => (k, c)).bind fun cells =>
      if admits keyNullable (cells.map Prod.fst) && admits valNullable (cells.map Prod.snd) then
        some (Cell.map cells) else none) = _
  rw [hread', Option.bind_some, if_pos hkeep]

/-- Every cell of a copyable type is read back from its normal form, up to the order of the
entries of maps. -/
theorem rowCell_canonical (hfloat : ∀ x, rt.fp.narrow (rt.fp.widen x) = x) {dt : DataType}
    (htype : builtFrom exactLeaf dt = true) {c : Cell} (htyped : wellTyped dt c = true) :
    ReadsCanonical codec mode rt dt c := by
  apply typed_induct _ _ _ _ _ _ htype htyped
  · exact readsCanonical_null
  · exact fun _ _ hscalar hleaf htyped hnull =>
      readsCanonical_scalar hfloat hscalar hleaf htyped hnull
  · exact fun _ _ _ _ h hadmits => readsCanonical_list h hadmits
  · exact fun _ _ _ _ h hadmits => readsCanonical_fixedSizeList h hadmits
  · exact fun _ _ hnames h hadmits => readsCanonical_struct hnames h hadmits
  · exact fun _ _ _ _ _ _ _ _ _ _ h hadmits => readsCanonical_map h hadmits

/-! ## Rows and tables -/

/-- An item that gives every column its value is read as the cells of the values, whatever its
shape and order. -/
theorem rowCells_of_values (target : Target) {shape : RowShape} {ws : List Value} {ds : List Cell}
    (hlen : ws.length = target.schema.length)
    (hread : ((target.schema.zip ws).mapM fun fv => rowCell rt fv.1.dataType fv.2) = some ds)
    (hadmits : fieldsAdmit target.schema ds = true) {item : Value}
    (hitem : ∀ i (hi : i < target.schema.length),
      project shape target.schema[i].name i item = ws[i]) :
    rowCells rt target shape item = some ds := by
  rw [rowCells, Traverse.mapM_eq_some_iff, List.forall₂_iff_get]
  rw [Traverse.mapM_eq_some_iff, List.forall₂_iff_get] at hread
  obtain ⟨hcount, hcell⟩ := hread
  simp only [List.length_zip, hlen, Nat.min_self, List.get_eq_getElem, List.getElem_zip] at hcount hcell
  refine ⟨by rw [List.length_zipIdx, hcount], fun i hi hi' => ?_⟩
  rw [List.length_zipIdx] at hi
  have htakes : columnTakes target.schema[i] ds[i] = true := by
    have hmem : (target.schema[i], ds[i]) ∈ target.schema.zip ds := by
      rw [← List.getElem_zip (h := by simp; omega)]
      exact List.getElem_mem _
    have hadmit := List.all_eq_true.1 hadmits _ hmem
    simp only [columnTakes]
    simp only [Bool.or_eq_true] at hadmit ⊢
    exact hadmit.imp id Or.inr
  simp only [List.get_eq_getElem, List.getElem_zipIdx, Nat.zero_add, cellAt]
  rw [hitem i hi, hcell i hi hi', Option.filter_some, if_pos htakes]

/-- The normal form of an item gives every column the normal form of its value. -/
theorem project_canonical {schema : Schema} {shape : RowShape} {vs : List Value}
    (hnames : (schema.map Field.name).Nodup) {i : Nat} (hi : i < schema.length)
    (hvs : i < (vs.map (canonicalize codec mode)).length) :
    project shape schema[i].name i (canonicalize codec mode (shape.item schema vs)) =
      (vs.map (canonicalize codec mode))[i] := by
  rw [← @project_item _ shape _ hnames _ hi hvs]
  cases shape with
  | array => rw [RowShape.item, RowShape.item, canonicalize_array]
  | map =>
      obtain ⟨sorted, hcanon, hperm⟩ := @canonicalize_named codec mode schema vs
      have honce := @named_once _ hnames (vs.map (canonicalize codec mode)) schema[i].name
        (isKey schema[i].name) fun t => rfl
      rw [RowShape.item, RowShape.item, hcanon]
      simp only [project]
      rw [Traverse.find?_perm hperm.symm honce]

/-- Rows that agree up to the order of the entries of maps, one by one and in order. -/
def SameRows (rows loaded : List (List Cell)) : Prop :=
  List.Forall₂ (List.Forall₂ SameEntries) rows loaded

/-- Rows without MAP cells agree only with themselves.  For such rows the canonical option
changes nothing that is loaded. -/
theorem SameRows.eq_of_mapless {rows loaded : List (List Cell)} (h : SameRows rows loaded)
    (hrows : ∀ cells ∈ rows, allMapless cells = true) : loaded = rows := by
  have hcells {cs ds : List Cell} (hsame : List.Forall₂ SameEntries cs ds)
      (hcs : allMapless cs = true) : ds = cs := by
    rw [allMapless_iff] at hcs
    induction hsame with
    | nil => rfl
    | cons hcd _ ih =>
        rw [(hcd.eq_of_mapless (hcs _ (by simp))), ih fun c hc => hcs c (List.mem_cons_of_mem _ hc)]
  induction h with
  | nil => rfl
  | cons hrow _ ih =>
      rw [hcells hrow (hrows _ (by simp)), ih fun cells hmem => hrows cells (List.mem_cons_of_mem _ hmem)]

variable (codec mode)

/-- A row of a table is written as an item whose normal form converts back to the row. -/
theorem Table.row_canonical (table : Table) (hfloat : ∀ x, rt.fp.narrow (rt.fp.widen x) = x)
    (shape : RowShape) {cells : List Cell} (hcells : cells ∈ table.rows) :
    ∃ item loaded, rowItem rt table.schema shape cells = .ok item ∧
      rowCells rt table.target shape (canonicalize codec mode item) = some loaded ∧
      List.Forall₂ SameEntries cells loaded := by
  have htyped := fieldsTyped_iff.1 (table.typed cells hcells)
  have hback : List.Forall₂ (fun f c => ReadsCanonical codec mode rt f.dataType c)
      table.schema cells := by
    rw [List.forall₂_iff_zip]
    exact ⟨htyped.length_eq, fun hmem => rowCell_canonical hfloat
      (table.types _ (List.of_mem_zip hmem).1) (List.forall₂_zip htyped hmem)⟩
  obtain ⟨vs, ds, hwrite, hlen, hread, hsame⟩ := readsCanonical_fields hback
  refine ⟨shape.item table.schema vs, ds, by rw [rowItem, hwrite]; rfl, ?_, hsame⟩
  exact rowCells_of_values table.target (by rw [List.length_map, hlen]; rfl) hread
    (table.admits ds) fun i hi => project_canonical table.names hi
      (by rw [List.length_map, hlen]; exact hi)

/-- Every row of a table is written as such an item. -/
theorem Table.items_canonical (table : Table) (hfloat : ∀ x, rt.fp.narrow (rt.fp.widen x) = x)
    (shape : RowShape) :
    ∃ items loaded, table.rows.mapM (rowItem rt table.schema shape) = .ok items ∧
      (items.map (canonicalize codec mode)).mapM (rowCells rt table.target shape) = some loaded ∧
      SameRows table.rows loaded := by
  have hrow := fun cells (hcells : cells ∈ table.rows) =>
    table.row_canonical codec mode hfloat shape hcells
  generalize table.rows = rows at hrow
  induction rows with
  | nil => exact ⟨[], [], rfl, rfl, .nil⟩
  | cons cells rows ih =>
      obtain ⟨item, loaded, hwrite, hread, hsame⟩ := hrow cells List.mem_cons_self
      obtain ⟨items, rest, hwrites, hreads, hsames⟩ :=
        ih fun cells' hmem => hrow cells' (List.mem_cons_of_mem _ hmem)
      refine ⟨item :: items, loaded :: rest, ?_, ?_, .cons hsame hsames⟩
      · rw [List.mapM_cons, hwrite, hwrites]
        rfl
      · rw [List.map_cons, List.mapM_cons, hread, hreads]
        rfl

/-- A batch of items that convert has the rows they convert to, as long as the items fit. -/
theorem buildBatch_of_cells {target : Target} {shape : RowShape} {items : List Value}
    {loaded : List (List Cell)} (hread : items.mapM (rowCells rt target shape) = some loaded)
    (hfits : RowsFit rt target shape items) :
    ∃ batch, buildBatch rt target.schema shape items = .ok batch ∧ batch.rows = loaded := by
  have hok : (buildBatch rt target.schema shape items).isOk = true := by
    rw [buildBatch_isOk_iff hfits]
    intro item hitem
    rw [converts_iff rt (hfits.single hitem)]
    exact Traverse.mapM_isSome_iff.1 (Option.isSome_of_eq_some hread) item hitem
  cases hbatch : buildBatch rt target.schema shape items with
  | error e =>
      rw [hbatch] at hok
      cases hok
  | ok batch =>
      have hrows := buildBatch_rows hfits hbatch
      rw [hread, Option.some.injEq] at hrows
      exact ⟨batch, rfl, hrows.symm⟩

/-- A table whose rows are put into normal form before they are written is loaded back up to
the order of the entries of its MAP cells: column for column, and exactly if there are
none. -/
theorem canonical_rows_read_back (rt : Runtime) (hfloat : ∀ x, rt.fp.narrow (rt.fp.widen x) = x)
    (codec : CborCodec) (mode : Canon) (table : Table) (shape : RowShape) :
    ∃ items, table.rows.mapM (rowItem rt table.schema shape) = .ok items ∧
      (RowsFit rt table.target shape (items.map (canonicalize codec mode)) →
        ∃ batch, buildBatch rt table.schema shape (items.map (canonicalize codec mode)) =
            .ok batch ∧ SameRows table.rows batch.rows ∧
          ((∀ cells ∈ table.rows, allMapless cells = true) → batch.rows = table.rows)) := by
  obtain ⟨items, loaded, hitems, hread, hsame⟩ := table.items_canonical codec mode hfloat shape
  refine ⟨items, hitems, fun hfits => ?_⟩
  obtain ⟨batch, hbatch, rfl⟩ := buildBatch_of_cells hread hfits
  exact ⟨batch, hbatch, hsame, hsame.eq_of_mapless⟩

theorem canonical_rows_read_back_sample :
    ∃ items, sampleTable.rows.mapM (rowItem .bare sampleTable.schema .map) = .ok items ∧
      ∃ batch, buildBatch .bare sampleTable.schema .map
          (items.map (canonicalize concreteCodecs.cbor .core)) = .ok batch ∧
        SameRows sampleTable.rows batch.rows := by
  obtain ⟨items, hitems, hload⟩ :=
    canonical_rows_read_back .bare F64.rebias_rebias concreteCodecs.cbor .core sampleTable .map
  have hfits : ∃ items, sampleTable.rows.mapM (rowItem .bare sampleTable.schema .map) = .ok items ∧
      RowsFit .bare sampleTable.target .map (items.map (canonicalize concreteCodecs.cbor .core)) := by
    refine ⟨_, rfl, ?_⟩
    unfold RowsFit
    decide
  obtain ⟨items', hitems', hfits⟩ := hfits
  obtain rfl : items' = items := Except.ok.inj (hitems'.symm.trans hitems)
  obtain ⟨batch, hbatch, hsame, -⟩ := hload hfits
  exact ⟨items', hitems, batch, hbatch, hsame⟩

end VgiCbor.RoundTrip
