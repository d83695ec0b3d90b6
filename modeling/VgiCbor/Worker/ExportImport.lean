import VgiCbor.Core.RowFiles
import VgiCbor.Worker.CanonicalRows
import VgiCbor.Worker.CopyService

/-!
# From COPY TO to COPY FROM

What a row file of a table is read back as: the table, up to what its wire format and the
`canonical` option change (`Table.items_delivered`).
-/

namespace VgiCbor.RoundTrip

open MachineInt Binary64 ValueIn ValueOut Copy MsgpackWire ItemStream

variable {rt : Runtime}

/-! ## How deep rows nest -/

mutual

/-- How deep the values of a column nest at most.  It is a number of the type alone: a scalar
takes three levels at most, and a nested type one more than its children. -/
def nesting : DataType → Nat
  | .list ⟨_, child, _⟩ => nesting child + 1
  | .largeList ⟨_, child, _⟩ => nesting child + 1
  | .fixedSizeList ⟨_, child, _⟩ _ => nesting child + 1
  | .struct fields => fieldsNesting fields + 1
  | .map ⟨_, entries, _⟩ _ => nesting entries
  | _ => 3

/-- How deep the values of any of the fields nest at most. -/
def fieldsNesting : List (Field DataType) → Nat
  | [] => 0
  | ⟨_, dt, _⟩ :: fields => max (nesting dt) (fieldsNesting fields)

end

theorem depth_bignum_le (n : I128) : (Bignum.toValue n).depth ≤ 1 := by
  unfold Bignum.toValue
  split
  · exact Nat.zero_le _
  · split_ifs <;> exact Nat.le_refl _

theorem toValue_widen (n : Integer) : Bignum.toValue n.widen = .integer n := by
  have hfits : (Ranged.tryFrom _ _ (n.widen : I128).val : Option Integer) = some n := by
    rw [Ranged.widen_val, Ranged.tryFrom_val]
  simp only [Bignum.toValue, hfits]

/-- A scalar is written with at most three levels: a tag over an array over a tagged bignum,
or less. -/
theorem depth_scalar {dt : DataType} (hscalar : dt.isNested = false) {c : Cell} {v : Value}
    (hwrite : valueAt rt dt c = .ok v) : v.depth ≤ 3 := by
  have hfraction (x : Integer) (n : I128) :
      (Value.tag 4 (.array [.integer x, Bignum.toValue n])).depth ≤ 3 := by
    have hdepth := depth_bignum_le n
    simp only [Value.depth, Value.depthItems]
    omega
  cases dt <;> cases c <;> first
    | cases hscalar; done
    | (cases hwrite; exact Nat.zero_le _)
    | (cases hwrite; done)
    | skip
  case decimal128.decimal p s n =>
    cases hwrite
    exact hfraction _ n
  case date32.int n =>
    cases hwrite
    simp [Value.depth]
  case date64.int n =>
    cases hwrite
    simp [Value.depth]
  case time32.int unit n => cases unit <;> cases hwrite <;> exact Nat.zero_le _
  case time64.int unit n => cases unit <;> cases hwrite <;> exact Nat.zero_le _
  case timestamp.int unit tz n =>
    cases hwrite
    unfold timestampValue
    simp only
    split_ifs
    · simp [Value.depth]
    · rw [toValue_widen]
      simp [Value.depth, Value.depthItems]

theorem nesting_le_fields {fields : List (Field DataType)} {f : Field DataType} (h : f ∈ fields) :
    nesting f.dataType ≤ fieldsNesting fields := by
  induction fields with
  | nil => cases h
  | cons g gs ih =>
      rw [fieldsNesting]
      rcases List.mem_cons.1 h with rfl | h
      · exact Nat.le_max_left _ _
      · exact (ih h).trans (Nat.le_max_right _ _)

/-- Whatever is written for the cell nests no deeper than its type. -/
def NestsWithin (rt : Runtime) (dt : DataType) (c : Cell) : Prop :=
  ∀ v, valueAt rt dt c = .ok v → v.depth ≤ nesting dt

theorem depth_items {dt : DataType} {items : List Cell} (h : ∀ c ∈ items, NestsWithin rt dt c)
    {v : Value} (hwrite : (items.mapM fun c => valueAt rt dt c).map Value.array = .ok v) :
    v.depth ≤ nesting dt + 1 := by
  obtain ⟨vs, hvs, rfl⟩ := Traverse.ok_of_map hwrite
  rw [Value.depth, Nat.add_le_add_iff_right, Value.depthItems_le]
  intro v hv
  obtain ⟨c, hc, hcv⟩ := Traverse.exists_of_mem_mapM_ok hvs hv
  exact h c hc v hcv

/-- The values of a row or a struct. -/
theorem depth_rowValues {fields : List (Field DataType)} {cells : List Cell}
    (h : List.Forall₂ (fun f c => NestsWithin rt f.dataType c) fields cells) {vs : List Value}
    (hwrite : rowValues rt fields cells = .ok vs) : ∀ v ∈ vs, v.depth ≤ fieldsNesting fields := by
  intro v hv
  obtain ⟨⟨f, c⟩, hfc, hcv⟩ := Traverse.exists_of_mem_mapM_ok hwrite hv
  exact (List.forall₂_zip h hfc v hcv).trans (nesting_le_fields (List.of_mem_zip hfc).1)

theorem depth_named {fields : List (Field DataType)} {vs : List Value} {n : Nat}
    (h : ∀ v ∈ vs, v.depth ≤ n) :
    (Value.map ((fields.map fun f => Value.text f.name).zip vs)).depth ≤ n + 1 := by
  rw [Value.depth, Nat.add_le_add_iff_right, Value.depthEntries_le]
  rintro ⟨k, v⟩ hmem
  obtain ⟨f, -, rfl⟩ := List.mem_map.1 (List.of_mem_zip hmem).1
  exact ⟨Nat.zero_le _, h v (List.of_mem_zip hmem).2⟩

/-- Every cell of a copyable type. -/
theorem nestsWithin {dt : DataType} (htype : builtFrom exactLeaf dt = true) {c : Cell}
    (htyped : wellTyped dt c = true) : NestsWithin rt dt c := by
  apply typed_induct _ _ _ _ _ _ htype htyped
  · intro dt v hwrite
    rw [valueAt_null hwrite]
    exact Nat.zero_le _
  · intro dt c hscalar hleaf _ _ v hwrite
    have hnesting : nesting dt = 3 := by
      cases dt <;> first
        | rfl
        | cases hscalar
    exact hnesting ▸ depth_scalar hscalar hwrite
  · intro name child nullable items h _ v hwrite
    rw [valueAt_list] at hwrite
    exact depth_items h hwrite
  · intro name child nullable items h _ v hwrite
    rw [valueAt_fixedSizeList] at hwrite
    exact depth_items h hwrite
  · intro fields cells _ h _ v hwrite
    rw [valueAt_struct, valueAtFields_eq] at hwrite
    obtain ⟨es, hes, rfl⟩ := Traverse.ok_of_map hwrite
    obtain ⟨vs, hvs, rfl⟩ := Traverse.ok_of_map hes
    exact depth_named (depth_rowValues h hvs)
  · intro name keyName key keyNullable valName val valNullable nullable sorted entries h _ v hwrite
    rw [valueAt_map] at hwrite
    obtain ⟨es, hes, rfl⟩ := Traverse.ok_of_map hwrite
    rw [Value.depth]
    simp only [nesting, fieldsNesting]
    rw [Nat.add_le_add_iff_right, Value.depthEntries_le]
    intro e he
    obtain ⟨entry, hentry, hwritten⟩ := Traverse.exists_of_mem_mapM_ok hes he
    obtain ⟨k, hk, hrest⟩ := ok_of_bind hwritten
    obtain ⟨v, hv, rfl⟩ := Traverse.ok_of_map hrest
    have hkey := (h entry hentry).1 k hk
    have hval := (h entry hentry).2 v hv
    dsimp only
    omega

/-- The item of a row nests one level deeper than its columns. -/
theorem depth_rowItem {schema : Schema} (hcolumns : ∀ f ∈ schema, builtFrom exactLeaf f.dataType = true)
    {cells : List Cell} (htyped : fieldsTyped schema cells = true) {shape : RowShape} {item : Value}
    (hwrite : rowItem rt schema shape cells = .ok item) :
    item.depth ≤ fieldsNesting schema + 1 := by
  obtain ⟨vs, hvs, rfl⟩ := Traverse.ok_of_map hwrite
  have hcells := fieldsTyped_iff.1 htyped
  have hdepth := @depth_rowValues rt _ _ (by
    rw [List.forall₂_iff_zip]
    exact ⟨hcells.length_eq, fun hmem => nestsWithin (hcolumns _ (List.of_mem_zip hmem).1)
      (List.forall₂_zip hcells hmem)⟩) _ hvs
  cases shape with
  | map => exact depth_named hdepth
  | array =>
      rw [RowShape.item, Value.depth, Nat.add_le_add_iff_right, Value.depthItems_le]
      exact hdepth

mutual

/-- Transcoding to MessagePack does not deepen a value. -/
theorem depth_cborToMp_le (fp : FloatOps) : ∀ v : Value, (Msgpack.cborToMp fp v).depth ≤ v.depth
  | .null => Nat.zero_le _
  | .bool _ => Nat.zero_le _
  | .integer n => by
      rw [Msgpack.cborToMp_integer]
      split <;> exact Nat.zero_le _
  | .float _ => Nat.zero_le _
  | .text _ => Nat.zero_le _
  | .bytes _ => Nat.zero_le _
  | .array items => Nat.succ_le_succ (depth_itemsToMp_le fp items)
  | .map entries => Nat.succ_le_succ (depth_entriesToMp_le fp entries)
  | .tag t inner => by
      have hinner := (depth_cborToMp_le fp inner).trans (Nat.le_succ _)
      by_cases ht : t = 1
      · rw [ht, Msgpack.cborToMp_instant]
        split
        · exact Nat.zero_le _
        · exact hinner
      · rw [Msgpack.cborToMp_tag fp ht]
        by_cases hbignum : t = 2 ∨ t = 3
        · rw [if_pos hbignum]
          cases inner <;> first
            | exact Nat.zero_le _
            | exact hinner
        · rw [if_neg hbignum]
          exact hinner

theorem depth_itemsToMp_le (fp : FloatOps) : ∀ items : List Value,
    Msgpack.Mp.depthItems (Msgpack.itemsToMp fp items) ≤ Value.depthItems items
  | [] => Nat.le_refl _
  | v :: vs => max_le_max (depth_cborToMp_le fp v) (depth_itemsToMp_le fp vs)

theorem depth_entriesToMp_le (fp : FloatOps) : ∀ entries : List (Value × Value),
    Msgpack.Mp.depthEntries (Msgpack.entriesToMp fp entries) ≤ Value.depthEntries entries
  | [] => Nat.le_refl _
  | (k, v) :: es =>
      max_le_max (max_le_max (depth_cborToMp_le fp k) (depth_cborToMp_le fp v))
        (depth_entriesToMp_le fp es)

end

/-! ## Written and delivered items -/

/-- The item that goes to the encoder: in normal form if the option asks for it. -/
def prepared (codecs : Codecs) (canonical : Option Canon) (item : Value) : Value :=
  match canonical with
  | some mode => canonicalize codecs.cbor mode item
  | none => item

/-- What the reader of a format delivers for a written item.  CBOR delivers the item itself,
MessagePack what is left of it in its own types. -/
def delivered (fp : FloatOps) : Wire → Value → Value
  | .cbor, item => item
  | .msgpack, item => carried fp item

variable {codecs : Codecs} {wire : Wire}

theorem itemBytes_prepared {canonical : Option Canon} {item : Value} {bytes : Bytes}
    (h : itemBytes rt codecs wire canonical item = .ok bytes) :
    wire.encodeRow rt.fp codecs (prepared codecs canonical item) = .ok bytes := by
  unfold itemBytes at h
  simp only at h
  split at h
  · next out hout =>
      cases h
      exact hout
  · cases h

theorem depth_prepared (canonical : Option Canon) (item : Value) :
    (prepared codecs canonical item).depth = item.depth := by
  cases canonical with
  | none => rfl
  | some mode => exact depth_canonicalize item

theorem usable_delivered (fp : FloatOps) (canonical : Option Canon) (shape : RowShape)
    (schema : Schema) (vs : List Value) :
    shape.usable (delivered fp wire (prepared codecs canonical (shape.item schema vs))) = true := by
  cases shape with
  | array =>
      cases canonical with
      | none => cases wire <;> simp [prepared, delivered, RowShape.item, RowShape.usable]
      | some mode =>
          cases wire <;>
            simp [prepared, delivered, RowShape.item, RowShape.usable, canonicalize_array]
  | map =>
      cases canonical with
      | none => cases wire <;> simp [prepared, delivered, RowShape.item, RowShape.usable]
      | some mode =>
          cases wire <;> simp [prepared, delivered, RowShape.item, RowShape.usable, canonicalize]

/-- A file of encoded items is read back as what is delivered for them, in order and without
an error. -/
theorem items_of_pieces {limit : Nat} (hmsgpack : codecs.msgpack.RoundTrips limit)
    (hlimit : MAX_NESTING ≤ limit) (fp : FloatOps) {items : List Value}
    (hkept : ∀ item ∈ items, item.depth ≤ MAX_NESTING ∧ (wire = .cbor → codecs.cbor.Keeps item))
    {pieces : List Bytes}
    (hencode : items.mapM (wire.encodeRow fp codecs) = .ok pieces) :
    wire.items fp codecs pieces.flatten = ⟨items.map (delivered fp wire), none⟩ := by
  cases wire with
  | cbor =>
      have hparse := (Seq.parseSeq_splices codecs.cbor fun v h => ⟨h.2 rfl, h.1⟩).concat items
        pieces hkept hencode
      rw [Wire.items, hparse, show delivered fp .cbor = id from rfl, List.map_id]
  | msgpack =>
      have hstream := (Msgpack.parseStream_splices codecs.msgpack hmsgpack).concat
        (items.map (Msgpack.cborToMp fp)) pieces (by
          rw [List.forall_mem_map]
          intro item hitem
          exact (depth_cborToMp_le fp item).trans ((hkept item hitem).1.trans hlimit))
        (by rw [List.mapM_map]; exact hencode)
      simp only [Wire.items, hstream, List.map_map]
      rfl

/-! ## Tables -/

/-- Every cell of a copyable type crosses MessagePack unless a mantissa does not fit. -/
theorem carries_exact (rt : Runtime) {dt : DataType} (htype : builtFrom exactLeaf dt = true)
    {c : Cell} (htyped : wellTyped dt c = true) : Carries rt dt c := by
  apply typed_induct _ _ _ _ _ _ htype htyped
  · exact carries_null
  · exact fun _ _ hscalar hleaf htyped _ =>
      carries_leaf hscalar (supported_of_exactLeaf hleaf) htyped
  · exact fun _ _ _ _ h hadmits => carries_list h hadmits
  · exact fun _ _ _ _ h hadmits => carries_fixedSizeList h hadmits
  · exact fun _ _ hnames h hadmits => carries_struct hnames h hadmits
  · exact fun _ _ _ _ _ _ _ _ _ _ h hadmits => carries_map h hadmits

/-- The row is written as an item, and what is delivered for that is read as the cells.  Under
the canonical option these may differ in the order of entries. -/
def RowDelivered (rt : Runtime) (codecs : Codecs) (wire : Wire) (opts : Options) (target : Target)
    (cells : List Cell) : Prop :=
  ∃ item loaded, rowItem rt target.schema opts.shape cells = .ok item ∧
    opts.shape.usable (delivered rt.fp wire (prepared codecs opts.canonical item)) = true ∧
    rowCells rt target opts.shape
      (delivered rt.fp wire (prepared codecs opts.canonical item)) = some loaded ∧
    List.Forall₂ SameEntries cells loaded ∧ (opts.canonical = none → loaded = cells)

/-- What a format and its options can carry: MessagePack knows no canonical order, and its
integers stop at 64 bits. -/
def Carriable (wire : Wire) (opts : Options) (rows : List (List Cell)) : Prop :=
  wire = .msgpack → opts.canonical = none ∧ ∀ cells ∈ rows, allFit cells = true

/-- The CBOR codec keeps every item that is written for the rows.  Nothing is asked of the
codec on other values. -/
def ItemsKept (rt : Runtime) (codecs : Codecs) (wire : Wire) (opts : Options) (schema : Schema)
    (rows : List (List Cell)) : Prop :=
  ∀ cells ∈ rows, ∀ item, rowItem rt schema opts.shape cells = .ok item →
    wire = .cbor → codecs.cbor.Keeps (prepared codecs opts.canonical item)

theorem Table.row_delivered (table : Table) (hfloat : ∀ x, rt.fp.narrow (rt.fp.widen x) = x)
    {opts : Options} (hcarriable : Carriable wire opts table.rows) {cells : List Cell}
    (hcells : cells ∈ table.rows) : RowDelivered rt codecs wire opts table.target cells := by
  have htyped := fieldsTyped_iff.1 (table.typed cells hcells)
  have hback : List.Forall₂ (fun f c => ReadsBack rt f.dataType c) table.schema cells := by
    rw [List.forall₂_iff_zip]
    exact ⟨htyped.length_eq, fun hmem => rowCell_valueAt hfloat
      (table.types _ (List.of_mem_zip hmem).1) (List.forall₂_zip htyped hmem)⟩
  obtain ⟨vs, hwrite, hlen, hread⟩ := readsBack_fields hback
  have hitem : rowItem rt table.schema opts.shape cells = .ok (opts.shape.item table.schema vs) := by
    rw [rowItem, hwrite]
    rfl
  obtain ⟨shape, canonical⟩ := opts
  have husable := @usable_delivered codecs wire rt.fp canonical shape
    table.schema vs
  cases canonical with
  | none =>
      refine ⟨_, cells, hitem, husable, ?_, List.forall₂_same.2 fun c _ => .refl c, fun _ => rfl⟩
      cases wire with
      | cbor =>
          exact rowCells_of_values table.target hlen hread (table.admits cells) fun i hi =>
            project_item table.names hi (by rw [hlen]; exact hi)
      | msgpack =>
          have hfit := (hcarriable rfl).2 cells hcells
          have hcarries : List.Forall₂ (fun f c => Carries rt f.dataType c) table.schema cells := by
            rw [List.forall₂_iff_zip]
            exact ⟨htyped.length_eq, fun hmem => carries_exact rt
              (table.types _ (List.of_mem_zip hmem).1) (List.forall₂_zip htyped hmem)⟩
          obtain ⟨vs', ds, hwrite', -, hread', -, hcarried⟩ := carries_fields hcarries
          obtain rfl : vs' = vs := Except.ok.inj (hwrite'.symm.trans hwrite)
          rw [if_pos hfit, ← hread', hread] at hcarried
          -- The delivered item is the item of the delivered values.
          have hitem' : delivered rt.fp .msgpack (prepared codecs none
              (shape.item table.schema vs')) =
                shape.item table.schema (vs'.map (carried rt.fp)) := by
            cases shape with
            | array => exact carried_array vs'
            | map => exact carried_named rt.fp table.schema vs'
          dsimp only
          rw [hitem']
          exact rowCells_of_values table.target (by rw [List.length_map, hlen]; rfl) hcarried
            (table.admits cells) fun i hi =>
              project_item table.names hi (by rw [List.length_map, hlen]; exact hi)
  | some mode =>
      cases wire with
      | msgpack => cases (hcarriable rfl).1
      | cbor =>
          obtain ⟨item, loaded, hitem', hload, hsame⟩ :=
            table.row_canonical codecs.cbor mode hfloat shape hcells
          obtain rfl := Except.ok.inj (hitem'.symm.trans hitem)
          exact ⟨_, loaded, hitem, husable, hload, hsame, fun hnone => by cases hnone⟩

/-- What comes out of a row file: usable items that are read as the rows. -/
structure FileDelivered (rt : Runtime) (codecs : Codecs) (wire : Wire) (opts : Options)
    (target : Target) (file : Bytes) (rows : List (List Cell)) (items : List Value)
    (loaded : List (List Cell)) : Prop where
  stream : wire.items rt.fp codecs file = ⟨items, none⟩
  usable : ∀ item ∈ items, opts.shape.usable item = true
  cells : items.mapM (rowCells rt target opts.shape) = some loaded
  same : SameRows rows loaded
  exact : opts.canonical = none → loaded = rows

/-- The pieces of a file, one a row. -/
theorem rows_delivered {target : Target} {opts : Options} {rows : List (List Cell)}
    (hrows : ∀ cells ∈ rows, RowDelivered rt codecs wire opts target cells ∧
      ∀ item, rowItem rt target.schema opts.shape cells = .ok item →
        item.depth ≤ MAX_NESTING ∧
          (wire = .cbor → codecs.cbor.Keeps (prepared codecs opts.canonical item)))
    {pieces : List Bytes}
    (hwrite : (rows.mapM fun cells => (rowItem rt target.schema opts.shape cells).bind
      (itemBytes rt codecs wire opts.canonical)) = .ok pieces) :
    ∃ (items : List Value) (loaded : List (List Cell)),
      items.mapM (wire.encodeRow rt.fp codecs) = .ok pieces ∧
      (∀ item ∈ items, item.depth ≤ MAX_NESTING ∧ (wire = .cbor → codecs.cbor.Keeps item)) ∧
      (∀ item ∈ items.map (delivered rt.fp wire), opts.shape.usable item = true) ∧
      (items.map (delivered rt.fp wire)).mapM (rowCells rt target opts.shape) = some loaded ∧
      SameRows rows loaded ∧ (opts.canonical = none → loaded = rows) := by
  induction rows generalizing pieces with
  | nil =>
      cases hwrite
      exact ⟨[], [], rfl, by simp, by simp, rfl, .nil, fun _ => rfl⟩
  | cons cells rows ih =>
      rw [List.mapM_cons] at hwrite
      obtain ⟨piece, hpiece, hrest⟩ := ok_of_bind hwrite
      obtain ⟨rest, hpieces, hcons⟩ := ok_of_bind hrest
      cases hcons
      obtain ⟨item, hitem, hbytes⟩ := ok_of_bind hpiece
      obtain ⟨⟨item', cells', hitem', husable, hread, hsame, hexact⟩, hkept⟩ :=
        hrows cells List.mem_cons_self
      obtain rfl := Except.ok.inj (hitem'.symm.trans hitem)
      obtain ⟨items, loaded, hencode, hkepts, husables, hreads, hsames, hexacts⟩ :=
        ih (fun c hc => hrows c (List.mem_cons_of_mem _ hc)) hpieces
      refine ⟨prepared codecs opts.canonical item' :: items, cells' :: loaded, ?_, ?_, ?_, ?_,
        .cons hsame hsames, fun hnone => by rw [hexact hnone, hexacts hnone]⟩
      · rw [List.mapM_cons, itemBytes_prepared hbytes, hencode]
        rfl
      · obtain ⟨hdepth, hkeeps⟩ := hkept item' hitem
        exact List.forall_mem_cons.2 ⟨⟨(depth_prepared _ _).trans_le hdepth, hkeeps⟩, hkepts⟩
      · rw [List.map_cons]
        exact List.forall_mem_cons.2 ⟨husable, husables⟩
      · rw [List.map_cons, List.mapM_cons, hread, hreads]
        rfl

/-- The file written for the rows of a table. -/
theorem Table.file_delivered (table : Table) (hfloat : ∀ x, rt.fp.narrow (rt.fp.widen x) = x)
    {limit : Nat} (hmsgpack : codecs.msgpack.RoundTrips limit) (hlimit : MAX_NESTING ≤ limit)
    (hnesting : fieldsNesting table.schema < MAX_NESTING) {opts : Options}
    (hcarriable : Carriable wire opts table.rows)
    (hkept : ItemsKept rt codecs wire opts table.schema table.rows) {pieces : List Bytes}
    (hwrite : (table.rows.mapM fun cells => (rowItem rt table.schema opts.shape cells).bind
      (itemBytes rt codecs wire opts.canonical)) = .ok pieces) :
    ∃ items loaded,
      FileDelivered rt codecs wire opts table.target pieces.flatten table.rows items loaded := by
  obtain ⟨items, loaded, hencode, hdepth, husable, hread, hsame, hexact⟩ :=
    @rows_delivered rt codecs wire table.target _ _ (fun cells hcells =>
      ⟨table.row_delivered hfloat hcarriable hcells, fun item hitem =>
        ⟨(depth_rowItem table.types (table.typed cells hcells) hitem).trans hnesting,
          hkept cells hcells item hitem⟩⟩) _ hwrite
  exact ⟨_, loaded, items_of_pieces hmsgpack hlimit rt.fp hdepth hencode, husable, hread,
    hsame, hexact⟩

end VgiCbor.RoundTrip

namespace VgiCbor.Copy

open ItemStream ValueOut RoundTrip

/-! ## A COPY FROM that meets no error -/

variable {rt : Runtime} {call : ReadCall}

/-- The loop takes usable items up to the batch size, and leaves the others in order. -/
theorem takeRows_clean {items : List Value} (husable : ∀ v ∈ items, call.shape.usable v = true)
    (rows : List Value) (hroom : rows.length ≤ call.batchRows) :
    takeRows call rows (items.map .ok) =
      (.ok (rows ++ items.take (call.batchRows - rows.length)),
        (items.drop (call.batchRows - rows.length)).map .ok) := by
  induction items generalizing rows with
  | nil => simp [takeRows]
  | cons v vs ih =>
      rw [List.map_cons]
      by_cases hfull : rows.length < call.batchRows
      · have hrest := ih (fun w hw => husable w (List.mem_cons_of_mem _ hw)) (rows ++ [v])
          (by simp; omega)
        have hnext : call.batchRows - rows.length =
            (call.batchRows - (rows ++ [v]).length) + 1 := by
          simp
          omega
        rw [takeRows, if_pos hfull]
        simp only [husable v List.mem_cons_self, if_true]
        rw [hrest, hnext, List.take_succ_cons, List.drop_succ_cons, List.append_assoc,
          List.singleton_append]
      · rw [takeRows_full call hfull, Nat.sub_eq_zero_of_le (not_lt.1 hfull)]
        simp

/-- A producer that has only usable items to come, all of which convert, delivers their rows
in batches of at most `batchRows`, and ends without an error. -/
theorem clean_run {target : Target} (htarget : target.schema = call.schema)
    (hlimit : 1 ≤ call.batchRows) {items : List Value} {loaded : List (List Cell)}
    (husable : ∀ v ∈ items, call.shape.usable v = true)
    (hread : items.mapM (rowCells rt target call.shape) = some loaded)
    (hfits : ∀ chunk, chunk <:+: items → chunk.length ≤ call.batchRows →
      RowsFit rt target call.shape chunk)
    {p : RowProducer} (hevents : p.events call = items.map .ok) :
    ∃ batches stopped, Drains (RowProducer.pull call rt) p batches none stopped ∧
      batches.flatMap RecordBatch.rows = loaded ∧
      ∀ batch ∈ batches, batch.rows ≠ [] ∧ batch.rows.length ≤ call.batchRows := by
  induction hlen : items.length using Nat.strong_induction_on generalizing items loaded p with
  | _ n ih =>
      obtain ⟨hpull, hrest⟩ := p.pull_spec call rt
      rw [hevents, takeRows_clean husable [] (Nat.zero_le _), List.nil_append, List.length_nil,
        Nat.sub_zero] at hpull hrest
      cases items with
      | nil =>
          cases hread
          rw [List.take_nil] at hpull
          exact ⟨[], _, .finished (Prod.ext hpull rfl), rfl, by simp⟩
      | cons v vs =>
          obtain ⟨k, hk⟩ : ∃ k, call.batchRows = k + 1 := ⟨call.batchRows - 1, by omega⟩
          have hall := Traverse.mapM_eq_some_iff.1 hread
          have hchunk : ((v :: vs).take call.batchRows).mapM (rowCells rt target call.shape) =
              some (loaded.take call.batchRows) :=
            Traverse.mapM_eq_some_iff.2 (List.forall₂_take _ hall)
          obtain ⟨batch, hbatch, hrows⟩ := buildBatch_of_cells hchunk
            (hfits _ (List.take_prefix _ _).isInfix (List.length_take_le _ _))
          have hnext : RowProducer.pull call rt p = (some (.ok batch), (p.pull call rt).2) := by
            have hconvert : convertRows rt call.schema call.shape call.ignoreErrors
                ((v :: vs).take call.batchRows) = .ok batch := by
              rw [convertRows, ← htarget, hbatch]
            rw [hk, List.take_succ_cons] at hpull hconvert
            refine Prod.ext (hpull.trans ?_) rfl
            rw [← hconvert]
            rfl
          have hshorter : ((v :: vs).drop call.batchRows).length < n := by
            rw [← hlen, List.length_drop, List.length_cons]
            omega
          obtain ⟨batches, stopped, hrun, hloaded, hsizes⟩ := ih _ hshorter
            (fun w hw => husable w (List.mem_of_mem_drop hw))
            (Traverse.mapM_eq_some_iff.2 (List.forall₂_drop _ hall))
            (fun chunk hpart => hfits chunk (hpart.trans (List.drop_suffix _ _).isInfix))
            hrest rfl
          refine ⟨batch :: batches, stopped, .item hnext hrun, ?_, ?_⟩
          · rw [List.flatMap_cons, hrows, hloaded, List.take_append_drop]
          · refine List.forall_mem_cons.2 ⟨⟨?_, ?_⟩, hsizes⟩
            · rw [hrows, ← List.length_pos_iff, List.length_take, ← hall.length_eq, List.length_cons]
              omega
            · rw [hrows]
              exact List.length_take_le _ _

/-! ## Sources that are all clean -/

theorem sourceEvents_clean (streams : List (List Value)) :
    sourceEvents call (streams.map fun items => .opened ⟨items, none⟩) =
      streams.flatten.map .ok := by
  induction streams with
  | nil => rfl
  | cons items streams ih =>
      rw [List.map_cons, sourceEvents, ih, List.flatten_cons, List.map_append]

end VgiCbor.Copy

namespace VgiCbor.CopyDestination

open ItemStream Copy Cloud RoundTrip

/-! ## Opening a COPY FROM -/

def READ_BATCH_ROWS : Nat := 8192

/-- What lists files and objects, and reads the key of an object.  It is outside the
repository, so it is a parameter. -/
structure Listing where
  glob : String → Except String (List String)
  remoteKey : Url → String
  listGlob : Url → Except Fault (List Url)

/-- Expand a local path to a list of files, sorted by their UTF-8 bytes; a path that is no
pattern stays as it is. -/
def resolveLocal (listing : Listing) (spec : String) : Except Fault (List String) :=
  if isGlob spec then
    match listing.glob spec with
    | .error e => .error (.valueError s!"bad glob '{spec}': {e}")
    | .ok out => .ok (KeySort.sortBy utf8 compare out)
  else .ok [spec]

/-- Expand a path into the locations it names: a local path or a glob, one object, or the
objects that a pattern in a URL matches. -/
def resolveLocations (o : Outside) (listing : Listing) (spec : String) :
    Except Fault (List Location) :=
  match Cloud.classify o.parseUrl spec with
  | .error e => .error (.valueError e)
  | .ok (.localPath p) => (resolveLocal listing p).map fun paths => paths.map .localPath
  | .ok (.remote url) =>
      if isGlob (listing.remoteKey url) then
        (listing.listGlob url).map fun urls => urls.map .remote
      else .ok [.remote url]

/-- How a location can be reached: the error that opening it meets, and the source that it
is when nothing is there. -/
structure Access where
  openError : Location → Option Fault
  missing : Location → Source

/-- The source that a location is: what is written there, or what `access` says of a location
that cannot be opened or holds nothing. -/
def World.source (o : Outside) (wire : Wire) (access : Access) (w : World) (l : Location) :
    Source :=
  match access.openError l with
  | some e => .unopenable e
  | none =>
      match w.at l with
      | some content => .opened (wire.items o.rt.fp o.codecs content)
      | none => access.missing l

structure CopyFrom where
  wire : Wire
  rowFormat : Option String
  ignoreErrors : Option Bool
  path : String
  schema : Schema

/-- Open the sources of a COPY FROM.  A path that matches nothing is an error here, and not an
empty table. -/
def openBoxed (o : Outside) (listing : Listing) (access : Access) (w : World) (copy : CopyFrom) :
    Except Fault (ReadCall × RowProducer) :=
  (parseRowShape o.debug copy.wire.format copy.rowFormat).bind fun shape =>
    (resolveLocations o listing copy.path).bind fun locations =>
      if locations.isEmpty then
        .error (.valueError s!"{copy.wire.format}: '{copy.path}' matched no files")
      else
        .ok (⟨copy.schema, copy.wire, shape, copy.ignoreErrors.getD false, READ_BATCH_ROWS⟩,
          .start (locations.map (w.source o copy.wire access)))

/-! ## Exports of a run -/

variable {storage : Storage}

/-- In the run the table was written under a fresh execution and closed into the location,
and no later call was closed into that. -/
def Exported (o : Outside) (writeBatch : SourceBatch → Except Fault Bytes) (s : Service storage)
    (calls : List Call) (wire : Wire) (location : Location) (opts : Options) (table : Table) :
    Prop :=
  ∃ before copy after n, calls = before ++ .close copy :: after ∧
    copy.wire = wire ∧ parseOptions o.debug wire copy.raw = .ok opts ∧
    Cloud.classify o.parseUrl copy.path = .ok location ∧
    s.shards copy.execution = [] ∧
    (∀ c batch, Call.write c batch ∈ before → c.execution = copy.execution →
      Accepted o writeBatch c batch) ∧
    (∀ batch ∈ batchesOf copy.execution before, batch.schema = table.schema) ∧
    (batchesOf copy.execution before).flatMap SourceBatch.rows = table.rows ∧
    (closeCopy o copy (s.after o writeBatch before)).1 = .ok n ∧
    ∀ c, Call.close c ∈ after → Elsewhere o c location

variable {o : Outside} {writeBatch : SourceBatch → Except Fault Bytes} {wire : Wire}

/-- The encodings of batches of one schema. -/
theorem batchResults_of_schema {opts : Options} {schema : Schema} {batches : List SourceBatch}
    (h : ∀ batch ∈ batches, batch.schema = schema) :
    batchResults o wire opts batches =
      (batches.flatMap SourceBatch.rows).map (rowBytes o wire opts schema) := by
  induction batches with
  | nil => rfl
  | cons batch batches ih =>
      rw [batchResults, List.flatMap_cons, List.flatMap_cons, List.map_append,
        h batch List.mem_cons_self, ← ih fun b hb => h b (List.mem_cons_of_mem _ hb)]
      rfl

/-- After the run the location holds the encoded rows of the table, one piece for each row and
nothing else. -/
theorem Exported.content {s : Service storage} {calls : List Call} {location : Location} {opts : Options}
    {table : Table} (h : Exported o writeBatch s calls wire location opts table) :
    ∃ pieces : List Bytes,
      (table.rows.mapM fun cells => (rowItem o.rt table.schema opts.shape cells).bind
        (itemBytes o.rt o.codecs wire opts.canonical)) = .ok pieces ∧
      (s.after o writeBatch calls).world.at location = some pieces.flatten := by
  obtain ⟨before, copy, after, n, rfl, rfl, hopts, hclassify, hfresh, haccepted, hschema, hrows,
    hclose, hlater⟩ := h
  have hstored := s.after_shards copy.execution before haccepted
  rw [hfresh, List.map_nil, List.nil_append] at hstored
  obtain ⟨opts', pieces, hopts', hpieces, -, hworld⟩ := closeCopy_ok hclassify hstored hclose
  obtain rfl := Except.ok.inj (hopts'.symm.trans hopts)
  rw [batchResults_of_schema hschema, hrows] at hpieces
  refine ⟨pieces, Traverse.mapM_of_map_ok hpieces, ?_⟩
  rw [Service.after_append, Service.after_cons, Service.after_elsewhere _ _ hlater]
  exact hworld

/-- What is exported is a clean source of items that are read as the rows of the table,
whatever calls of other executions stood between. -/
theorem Exported.delivered {s : Service storage} {calls : List Call} {location : Location} {opts : Options}
    {table : Table} (h : Exported o writeBatch s calls wire location opts table)
    (hfloat : ∀ x, o.rt.fp.narrow (o.rt.fp.widen x) = x) {limit : Nat}
    (hmsgpack : o.codecs.msgpack.RoundTrips limit) (hlimit : MAX_NESTING ≤ limit)
    (hnesting : fieldsNesting table.schema < MAX_NESTING)
    (hcarriable : Carriable wire opts table.rows)
    (hkept : ItemsKept o.rt o.codecs wire opts table.schema table.rows) {access : Access}
    (hopen : access.openError location = none) :
    ∃ items loaded,
      (s.after o writeBatch calls).world.source o wire access location = .opened ⟨items, none⟩ ∧
      (∀ item ∈ items, opts.shape.usable item = true) ∧
      items.mapM (rowCells o.rt table.target opts.shape) = some loaded ∧
      SameRows table.rows loaded ∧ (opts.canonical = none → loaded = table.rows) := by
  obtain ⟨pieces, hpieces, hcontent⟩ := h.content
  obtain ⟨items, loaded, hfile⟩ := table.file_delivered hfloat hmsgpack hlimit hnesting
    hcarriable hkept hpieces
  refine ⟨items, loaded, ?_, hfile.usable, hfile.cells, hfile.same, hfile.exact⟩
  simp only [World.source, hopen, hcontent, hfile.stream]

/-- The tables of a schema that a run exported to a list of locations are sources that read
as their rows, one table after the other. -/
theorem exported_sources {s : Service storage} {calls : List Call}
    (hfloat : ∀ x, o.rt.fp.narrow (o.rt.fp.widen x) = x) {limit : Nat}
    (hmsgpack : o.codecs.msgpack.RoundTrips limit) (hlimit : MAX_NESTING ≤ limit) {target : Target}
    (hnesting : fieldsNesting target.schema < MAX_NESTING) {shape : RowShape} {access : Access}
    {locations : List Location} {exports : List (Options × Table)}
    (hexports : List.Forall₂ (fun l e => Exported o writeBatch s calls wire l e.1 e.2 ∧
      access.openError l = none ∧ e.1.shape = shape ∧ e.2.schema = target.schema ∧
      Carriable wire e.1 e.2.rows ∧ ItemsKept o.rt o.codecs wire e.1 e.2.schema e.2.rows)
        locations exports) :
    ∃ (streams : List (List Value)) (loaded : List (List Cell)),
      locations.map ((s.after o writeBatch calls).world.source o wire access) =
        streams.map (fun items => .opened ⟨items, none⟩) ∧
      (∀ item ∈ streams.flatten, shape.usable item = true) ∧
      streams.flatten.mapM (rowCells o.rt target shape) = some loaded ∧
      SameRows (exports.flatMap fun e => e.2.rows) loaded ∧
      ((∀ e ∈ exports, e.1.canonical = none) → loaded = exports.flatMap fun e => e.2.rows) := by
  induction hexports with
  | nil => exact ⟨[], [], rfl, by simp, rfl, .nil, fun _ => rfl⟩
  | @cons location e locations exports hexport _ ih =>
      obtain ⟨opts, table⟩ := e
      obtain ⟨hexported, hopen, hshape, hschema, hcarriable, hkept⟩ := hexport
      obtain ⟨streams, loaded, hsources, husables, hreads, hsames, hexacts⟩ := ih
      obtain ⟨items, rows, hsource, husable, hread, hsame, hexact⟩ := hexported.delivered hfloat
        hmsgpack hlimit (by rw [hschema]; exact hnesting) hcarriable hkept hopen
      have htarget : table.target = target := by
        cases target
        cases hschema
        rfl
      dsimp only at hshape
      rw [htarget, hshape] at hread
      rw [hshape] at husable
      refine ⟨items :: streams, rows ++ loaded, ?_, ?_, ?_, ?_, fun hnone => ?_⟩
      · rw [List.map_cons, List.map_cons, hsource, hsources]
      · rw [List.flatten_cons]
        intro item hitem
        exact (List.mem_append.1 hitem).elim (husable item) (husables item)
      · rw [List.flatten_cons, List.mapM_append, hread, hreads]
        rfl
      · exact List.rel_append hsame hsames
      · rw [List.flatMap_cons, hexact (hnone _ List.mem_cons_self),
          hexacts fun e he => hnone e (List.mem_cons_of_mem _ he)]

/-- Tables that were exported in any run of interleaved COPY TO calls are loaded back by one
COPY FROM over their locations: all rows, table by table in the order of the locations, in
batches of at most `READ_BATCH_ROWS`, strict or not, if the codecs keep the items that were
written and no batch has more list or map elements or more text or blob bytes than offsets
count.  Only the order of the entries of MAP cells may differ, and only where the `canonical`
option was set. -/
theorem export_import (o : Outside) (writeBatch : SourceBatch → Except Fault Bytes) (s : Service storage)
    (calls : List Call) (listing : Listing) (access : Access) (copy : CopyFrom) (shape : RowShape)
    (locations : List Location) (exports : List (Options × Table)) (target : Target) (limit : Nat)
    (hfloat : ∀ x, o.rt.fp.narrow (o.rt.fp.widen x) = x)
    (hmsgpack : o.codecs.msgpack.RoundTrips limit) (hlimit : MAX_NESTING ≤ limit)
    (hschema : copy.schema = target.schema) (hnesting : fieldsNesting target.schema < MAX_NESTING)
    (hshape : parseRowShape o.debug copy.wire.format copy.rowFormat = .ok shape)
    (hresolve : resolveLocations o listing copy.path = .ok locations) (hsome : locations ≠ [])
    (hexports : List.Forall₂ (fun l e => Exported o writeBatch s calls copy.wire l e.1 e.2 ∧
      access.openError l = none ∧ e.1.shape = shape ∧ e.2.schema = target.schema ∧
      Carriable copy.wire e.1 e.2.rows ∧
      ItemsKept o.rt o.codecs copy.wire e.1 e.2.schema e.2.rows) locations exports) :
    ∃ call producer items,
      openBoxed o listing access (s.after o writeBatch calls).world copy = .ok (call, producer) ∧
      producer.events call = items.map .ok ∧
      ((∀ chunk, chunk <:+: items → chunk.length ≤ READ_BATCH_ROWS →
          RowsFit o.rt target shape chunk) →
        ∃ batches stopped, Drains (RowProducer.pull call o.rt) producer batches none stopped ∧
          (∀ batch ∈ batches, batch.rows ≠ [] ∧ batch.rows.length ≤ READ_BATCH_ROWS) ∧
          SameRows (exports.flatMap fun e => e.2.rows) (batches.flatMap RecordBatch.rows) ∧
          ((∀ e ∈ exports, e.1.canonical = none) →
            batches.flatMap RecordBatch.rows = exports.flatMap fun e => e.2.rows)) := by
  obtain ⟨streams, loaded, hsources, husable, hread, hsame, hexact⟩ :=
    exported_sources hfloat hmsgpack hlimit hnesting hexports
  let call : ReadCall :=
    ⟨copy.schema, copy.wire, shape, copy.ignoreErrors.getD false, READ_BATCH_ROWS⟩
  refine ⟨call, .start (streams.map fun items => .opened ⟨items, none⟩), streams.flatten, ?_,
    sourceEvents_clean streams, fun hfits => ?_⟩
  · rw [openBoxed, hshape, hresolve, ← hsources]
    simp only [Except.bind, List.isEmpty_eq_false_iff.2 hsome, Bool.false_eq_true, if_false]
    rfl
  · obtain ⟨batches, stopped, hrun, hrows, hsizes⟩ := @clean_run o.rt call _
      hschema.symm (by show 1 ≤ READ_BATCH_ROWS; decide) _ _ husable hread hfits
      (.start (streams.map fun items => .opened ⟨items, none⟩)) (sourceEvents_clean streams)
    rw [← hrows] at hsame hexact
    exact ⟨batches, stopped, hrun, hsizes, hsame, hexact⟩

def flags : Table where
  schema := [⟨"x", .boolean, true⟩]
  nonempty := by simp
  nullable := by simp
  names := by simp
  types := by simp [ValueOut.builtFrom, exactLeaf, ValueOut.supported]
  rows := [[.bool true], [.null]]
  typed := by simp [ValueOut.fieldsTyped, ValueOut.wellTyped]

def flagsBatch : SourceBatch := ⟨flags.schema, flags.rows⟩

/-- A worker whose only batch is that of the flags. -/
def flagsOutside : Outside := { intervals with readBatch := fun _ => .ok flagsBatch }

def flagsCalls : List Call := [.write firstCopy flagsBatch, .close firstCopy]

/-- Nothing is listed, and everything can be opened. -/
def noListing : Listing := ⟨fun _ => .ok [], Url.text, fun _ => .ok []⟩

@[inherit_doc noListing]
def openAccess : Access := ⟨fun _ => none, fun _ => .opened ⟨[], none⟩⟩

theorem flags_exported :
    Exported flagsOutside (fun _ => .ok [0]) (⟨[], oneFile⟩ : Service .inMemory) flagsCalls .cbor
      (.localPath "rows.cbor") ⟨.array, none⟩ flags := by
  obtain ⟨hopts, hglob, hclassify, hcreate⟩ := intervals_creates
  have haccepted : Accepted flagsOutside (fun _ => .ok [0]) firstCopy flagsBatch :=
    ⟨⟨_, hopts⟩, [0], rfl, rfl⟩
  refine ⟨[.write firstCopy flagsBatch], firstCopy, [], 2, rfl, rfl, hopts, hclassify, rfl, ?_,
    ?_, rfl, ?_, by simp⟩
  · intro c batch hmem _
    simp only [List.mem_singleton, Call.write.injEq] at hmem
    obtain ⟨rfl, rfl⟩ := hmem
    exact haccepted
  · intro batch hbatch
    obtain rfl : batch = flagsBatch := by simpa [batchesOf] using hbatch
    rfl
  · have hopts' : parseOptions flagsOutside.debug firstCopy.wire firstCopy.raw =
        .ok ⟨.array, none⟩ := hopts
    have hshards : ((⟨[], oneFile⟩ : Service .inMemory).after flagsOutside (fun _ => .ok [0])
        [.write firstCopy flagsBatch]).shards firstCopy.execution = [[0]] := by
      simp only [Service.after_cons, Service.after_nil, Service.step, write, hopts']
      rfl
    rw [closeCopy, hshards]
    simp only [close, hopts']
    have hglob' : isGlob firstCopy.path = false := hglob
    have hclassify' : Cloud.classify flagsOutside.parseUrl firstCopy.path =
        .ok (.localPath "rows.cbor") := hclassify
    have hcreate' : flagsOutside.createError "rows.cbor" = none := hcreate
    simp only [hglob', hclassify', hcreate', Bool.false_eq_true, if_false]
    rfl

theorem export_import_flags :
    ∃ call producer batches stopped,
      openBoxed flagsOutside noListing openAccess
        ((⟨[], oneFile⟩ : Service .inMemory).after flagsOutside (fun _ => .ok [0]) flagsCalls).world
        ⟨.cbor, some "array", none, "rows.cbor", flags.schema⟩ = .ok (call, producer) ∧
      Drains (RowProducer.pull call .bare) producer batches none stopped ∧
      batches.flatMap RecordBatch.rows = [[.bool true], [.null]] := by
  obtain ⟨-, hglob, hclassify, -⟩ := intervals_creates
  have hmode : (trim "array").toLower = "array" := by decide +kernel
  obtain ⟨call, producer, items, hopen, -, hload⟩ := export_import flagsOutside
    (fun _ => .ok [0]) (⟨[], oneFile⟩ : Service .inMemory) flagsCalls noListing openAccess
    ⟨.cbor, some "array", none, "rows.cbor", flags.schema⟩ .array [.localPath "rows.cbor"]
    [(⟨.array, none⟩, flags)] flags.target 1023 Binary64.F64.rebias_rebias
    FixMsgpack.codec_roundTrips (by decide) rfl (by decide)
    (by simp [parseRowShape, hmode])
    (by
      have hclassify' : Cloud.classify flagsOutside.parseUrl "rows.cbor" =
          .ok (.localPath "rows.cbor") := hclassify
      rw [resolveLocations, hclassify']
      simp only [resolveLocal, hglob, Bool.false_eq_true, if_false]
      rfl)
    (by simp)
    (.cons ⟨flags_exported, rfl, rfl, rfl, fun h => (by cases h),
      fun _ _ _ _ _ => Definite.codec_roundTrips.keeps _⟩ .nil)
  obtain ⟨batches, stopped, hrun, -, -, hexact⟩ := hload fun chunk _ _ column hcolumn => by
    obtain rfl : column = (⟨"x", .boolean, true⟩, 0) := by
      simpa [Table.target, flags] using hcolumn
    rfl
  exact ⟨call, producer, batches, stopped, hopen, hrun, hexact (by simp)⟩

end VgiCbor.CopyDestination
