import VgiCbor.Worker.RowSemantics

/-!
# Column types and the cells they hold

`builtFrom` closes a set of scalar types under lists, fixed-size lists, structs and
maps.  `wellTyped` says which cells a column of a type can hold: `NULL` everywhere
but where a child is not nullable, and otherwise a cell of the type's own range.
-/

namespace VgiCbor.ValueOut

mutual

/-- The types built from the given scalars by lists, fixed-size lists of at least one
element, structs of at least one field with distinct names, and maps. -/
def builtFrom (leaf : DataType → Bool) : DataType → Bool
  | .list ⟨_, child, _⟩ => builtFrom leaf child
  | .fixedSizeList ⟨_, child, _⟩ size => decide (1 ≤ size) && builtFrom leaf child
  | .struct fields =>
      !fields.isEmpty && (decide (fields.map Field.name).Nodup && fieldsBuiltFrom leaf fields)
  | .map ⟨_, .struct [⟨_, key, _⟩, ⟨_, val, _⟩], nullable⟩ _ =>
      !nullable && (builtFrom leaf key && builtFrom leaf val)
  | .map _ _ | .largeList _ => false
  | dt => leaf dt

def fieldsBuiltFrom (leaf : DataType → Bool) : List (Field DataType) → Bool
  | [] => true
  | ⟨_, dt, _⟩ :: fields => builtFrom leaf dt && fieldsBuiltFrom leaf fields

end

theorem fieldsBuiltFrom_iff {leaf : DataType → Bool} {fields : List (Field DataType)} :
    fieldsBuiltFrom leaf fields = true ↔ ∀ f ∈ fields, builtFrom leaf f.dataType = true := by
  induction fields with
  | nil => simp [fieldsBuiltFrom]
  | cons f fs ih => simp [fieldsBuiltFrom, ih]

/-- Types built from supported scalars are supported.  The property is passed up from the
scalars by every nested type. -/
theorem supported_of_builtFrom {leaf : DataType → Bool}
    (hleaf : ∀ dt, dt.isNested = false → leaf dt = true → supported dt = true) {dt : DataType}
    (h : builtFrom leaf dt = true) : supported dt = true := by
  induction dt using DataType.induct with
  | scalar dt hscalar =>
      have hdt : leaf dt = true := by
        cases dt <;> first
          | exact h
          | cases hscalar
      exact hleaf dt hscalar hdt
  | list child ih =>
      obtain ⟨name, dt, nullable⟩ := child
      exact ih h
  | largeList child ih => cases h
  | fixedSizeList child size ih =>
      obtain ⟨name, dt, nullable⟩ := child
      simp only [builtFrom, supported, Bool.and_eq_true] at h ⊢
      exact ⟨h.1, ih h.2⟩
  | struct fields ih =>
      simp only [builtFrom, supported, Bool.and_eq_true, fieldsBuiltFrom_iff,
        supportedFields_iff] at h ⊢
      exact ⟨h.1, fun f hf => ih f hf (h.2.2 f hf)⟩
  | map entries sorted ih =>
      obtain ⟨name, dt, nullable⟩ := entries
      unfold builtFrom at h
      split at h
      case h_4 hmap =>
        cases hmap
        simp only [supported, Bool.and_eq_true] at h ⊢
        exact ⟨h.1, ih _ rfl _ List.mem_cons_self h.2.1,
          ih _ rfl _ (List.mem_cons_of_mem _ List.mem_cons_self) h.2.2⟩
      all_goals simp_all

mutual

/-- The column can hold the cell.  An Arrow column holds no others, so the downcasts of the
encoder succeed. -/
def wellTyped : DataType → Cell → Bool
  | _, .null => true
  | .boolean, .bool _ => true
  | .int t, .int n => decide (t.lo ≤ n.val ∧ n.val < t.hi)
  | .float32, .f32 _ => true
  | .float64, .f64 _ => true
  | .decimal128 _ _, .decimal _ => true
  | .utf8, .text _ => true
  | .largeUtf8, .text _ => true
  | .binary, .bytes _ => true
  | .largeBinary, .bytes _ => true
  | .fixedSizeBinary width, .bytes b => decide (b.length = width)
  | .date32, .int n => decide (-0x80000000 ≤ n.val ∧ n.val < 0x80000000)
  | .time32 _, .int n => decide (-0x80000000 ≤ n.val ∧ n.val < 0x80000000)
  | .time64 _, .int n => decide (-0x8000000000000000 ≤ n.val ∧ n.val < 0x8000000000000000)
  | .timestamp _ _, .int n =>
      decide (-0x8000000000000000 ≤ n.val ∧ n.val < 0x8000000000000000)
  | .list ⟨_, child, nullable⟩, .list items =>
      items.all (fun c => wellTyped child c) && admits nullable items
  | .fixedSizeList ⟨_, child, nullable⟩ size, .list items =>
      decide (items.length = size) &&
        (items.all (fun c => wellTyped child c) && admits nullable items)
  | .struct fields, .struct cells => fieldsTyped fields cells && fieldsAdmit fields cells
  | .map ⟨_, .struct [⟨_, key, keyNullable⟩, ⟨_, val, valNullable⟩], _⟩ _, .map entries =>
      entries.all (fun e => wellTyped key e.1 && wellTyped val e.2) &&
        (admits keyNullable (entries.map Prod.fst) && admits valNullable (entries.map Prod.snd))
  | _, _ => false

/-- The fields can hold the cells, one each. -/
def fieldsTyped : List (Field DataType) → List Cell → Bool
  | [], [] => true
  | ⟨_, dt, _⟩ :: fields, c :: cells => wellTyped dt c && fieldsTyped fields cells
  | _, _ => false

end

theorem fieldsTyped_iff {fields : List (Field DataType)} {cells : List Cell} :
    fieldsTyped fields cells = true ↔
      List.Forall₂ (fun f c => wellTyped f.dataType c = true) fields cells := by
  induction fields generalizing cells with
  | nil => cases cells <;> simp [fieldsTyped]
  | cons f fs ih => cases cells <;> simp [fieldsTyped, ih]

/-- Induction over the cells of a built type: a property holds of all of them if it holds of
null cells and of scalar cells, and passes from the cells below a container to the container. -/
theorem typed_induct {leaf : DataType → Bool} {P : DataType → Cell → Prop}
    (null : ∀ dt, P dt .null)
    (scalar : ∀ dt c, dt.isNested = false → leaf dt = true → wellTyped dt c = true →
      c.isNull = false → P dt c)
    (list : ∀ name child nullable items, (∀ c ∈ items, P child c) →
      admits nullable items = true → P (.list ⟨name, child, nullable⟩) (.list items))
    (fixedSizeList : ∀ name child nullable items, (∀ c ∈ items, P child c) →
      admits nullable items = true →
      P (.fixedSizeList ⟨name, child, nullable⟩ items.length) (.list items))
    (struct : ∀ fields cells, (fields.map Field.name).Nodup →
      List.Forall₂ (fun f c => P f.dataType c) fields cells → fieldsAdmit fields cells = true →
      P (.struct fields) (.struct cells))
    (map : ∀ name keyName key keyNullable valName val valNullable nullable sorted entries,
      (∀ e ∈ entries, P key e.1 ∧ P val e.2) →
      (admits keyNullable (entries.map Prod.fst) &&
        admits valNullable (entries.map Prod.snd)) = true →
      P (.map ⟨name, .struct [⟨keyName, key, keyNullable⟩, ⟨valName, val, valNullable⟩], nullable⟩
        sorted) (.map entries))
    {dt : DataType} (htype : builtFrom leaf dt = true) {c : Cell}
    (htyped : wellTyped dt c = true) : P dt c := by
  induction dt using DataType.induct generalizing c with
  | scalar dt hscalar =>
      have hleaf : leaf dt = true := by
        cases dt <;> first
          | exact htype
          | cases hscalar
      cases hnull : c.isNull with
      | true =>
          cases c <;> first
            | exact null dt
            | cases hnull
      | false => exact scalar dt c hscalar hleaf htyped hnull
  | list child ih =>
      obtain ⟨name, dt, nullable⟩ := child
      cases c <;> first
        | exact null _
        | cases htyped
        | skip
      simp only [wellTyped, Bool.and_eq_true, List.all_eq_true] at htyped
      exact list _ _ _ _ (fun c hc => ih htype (htyped.1 c hc)) htyped.2
  | largeList child ih => cases htype
  | fixedSizeList child size ih =>
      obtain ⟨name, dt, nullable⟩ := child
      cases c <;> first
        | exact null _
        | cases htyped
        | skip
      simp only [wellTyped, Bool.and_eq_true, List.all_eq_true, decide_eq_true_eq] at htyped
      simp only [builtFrom, Bool.and_eq_true] at htype
      obtain ⟨rfl, htyped, hadmits⟩ := htyped
      exact fixedSizeList _ _ _ _ (fun c hc => ih htype.2 (htyped c hc)) hadmits
  | struct fields ih =>
      cases c <;> first
        | exact null _
        | cases htyped
        | skip
      simp only [wellTyped, Bool.and_eq_true, fieldsTyped_iff] at htyped
      simp only [builtFrom, Bool.and_eq_true, decide_eq_true_eq, fieldsBuiltFrom_iff] at htype
      refine struct _ _ htype.2.1 ?_ htyped.2
      rw [List.forall₂_iff_zip]
      exact ⟨htyped.1.length_eq, fun hmem => ih _ (List.of_mem_zip hmem).1
        (htype.2.2 _ (List.of_mem_zip hmem).1) (List.forall₂_zip htyped.1 hmem)⟩
  | map entries sorted ih =>
      obtain ⟨name, dt, nullable⟩ := entries
      unfold builtFrom at htype
      split at htype
      case h_4 hmap =>
        -- The entries are a struct of a key and a value.
        cases hmap
        cases c <;> first
          | exact null _
          | cases htyped
          | skip
        simp only [Bool.and_eq_true] at htype
        unfold wellTyped at htyped
        rw [Bool.and_eq_true, List.all_eq_true] at htyped
        refine map _ _ _ _ _ _ _ _ _ _ (fun e he => ?_) htyped.2
        have hentry := htyped.1 e he
        rw [Bool.and_eq_true] at hentry
        exact ⟨ih _ rfl _ List.mem_cons_self htype.2.1 hentry.1,
          ih _ rfl _ (List.mem_cons_of_mem _ List.mem_cons_self) htype.2.2 hentry.2⟩
      -- No other type of entries is a built type.
      all_goals
        clear null scalar list fixedSizeList struct map ih
        simp_all

end VgiCbor.ValueOut
