import VgiCbor.Core.CanonicalJson
import VgiCbor.Core.MsgpackJson

/-!
# When two MessagePack items are shown alike

An item can be rendered as JSON directly, or transcoded to CBOR and rendered then.  An
`ext` item is shown as some item without `ext` is (`cborShape`, `directShape`), so that
one item comes out through CBOR as another does directly exactly if their shapes agree part
by part (`shownAlike_iff`).
-/

namespace VgiCbor.Msgpack

open MachineInt Binary64 Json LabelScan SortedMap

variable {platform : Platform}

/-! ## The members of an object -/

/-- The key of an entry in the direct rendering. -/
def directKey (platform : Platform) (e : Mp × Mp) : String := mpKey platform e.1

/-- The key of an entry in the rendering through CBOR. -/
def cborKey (platform : Platform) (e : Mp × Mp) : String :=
  jsonKey platform (mpToCbor platform.fp e.1)

/-- The rendering through CBOR. -/
def throughCbor (platform : Platform) (m : Mp) : Json :=
  toJsonValue platform (mpToCbor platform.fp m)

theorem mpToJsonItems_eq_map (items : List Mp) :
    mpToJsonItems platform items = items.map (mpToJson platform) := by
  induction items with
  | nil => rw [mpToJsonItems, List.map_nil]
  | cons v items ih => rw [mpToJsonItems, ih, List.map_cons]

theorem mpToJsonMembers_eq_fill (entries : List (Mp × Mp)) (obj : List (String × Json)) :
    mpToJsonMembers platform entries obj =
      fill (directKey platform) (fun e => mpToJson platform e.2) entries obj := by
  induction entries generalizing obj with
  | nil => rw [mpToJsonMembers, fill, List.foldl_nil]
  | cons e entries ih =>
      obtain ⟨k, v⟩ := e
      rw [mpToJsonMembers, ih, insert_eq_upsert]
      rfl

theorem throughCbor_array (items : List Mp) :
    throughCbor platform (.array items) = .array (items.map (throughCbor platform)) := by
  rw [throughCbor, mpToCbor, toJsonValue, itemsToCbor_eq_map, toJsonItems_eq_map, List.map_map]
  rfl

theorem throughCbor_map (entries : List (Mp × Mp)) :
    throughCbor platform (.map entries) =
      .object (fill (cborKey platform) (fun e => throughCbor platform e.2) entries []) := by
  rw [throughCbor, mpToCbor, toJsonValue, entriesToCbor_eq_map, toJsonMembers_eq_fill, fill,
    List.foldl_map]
  rfl

/-! ## Shapes -/

/-- Neither an array, a map nor an `ext` item. -/
def isScalar : Mp → Bool
  | .array _ => false
  | .map _ => false
  | .ext _ _ => false
  | _ => true

/-- What both renderings show a scalar as. -/
def scalarToJson (platform : Platform) : Mp → Json
  | .boolean b => .bool b
  | .integer n => integerToJson n
  | .f32 f => floatToJson (platform.fp.widen f)
  | .f64 f => floatToJson f
  | .string (.text s) => .string s
  | .string (.invalid b) => .string (b64url b)
  | .binary b => .string (b64url b)
  | _ => .null

instance : Ranged.Within (-0x80) 0x80 (-0x8000000000000000) 0x10000000000000000 :=
  ⟨by decide, by decide⟩

instance : Ranged.Within (-0x8000000000000000) 0x8000000000000000 (-0x8000000000000000)
    0x10000000000000000 :=
  ⟨by decide, by decide⟩

/-- An `ext` item without a meaning of its own, as a map with its type and its bytes. -/
def opaqueShape (ty : I8) (data : Bytes) : Mp :=
  .map [(.string (.text "ext_type"), .integer ty.widen), (.string (.text "data"), .binary data)]

/-- A whole number, outside the range of MessagePack as the text or the bytes it is shown
as. -/
def wholeShape (n : I128) : Mp :=
  match (Ranged.tryFrom _ _ n.val : Option MpInteger) with
  | some i => .integer i
  | none =>
      match (Ranged.tryFrom _ _ n.val : Option Integer) with
      | some i => .string (.text (toString i.val))
      | none =>
          if 0 ≤ n.val then .binary (Bignum.trimBe n.val.toNat)
          else .binary (Bignum.trimBe (-1 - n.val).toNat)

/-- An instant as CBOR carries it. -/
def instantShape (secs : I64) (nanos : U32) : Mp :=
  if nanos.val = 0 then .integer secs.widen
  else .array [.integer (I64.wrap (-9)).widen,
    wholeShape (I128.wrap (secs.val * 1000000000 + nanos.val))]

/-- The item without `ext` that is shown as this one is through CBOR.  With it the two
renderings are compared on plain items only. -/
def cborShape : Mp → Mp
  | .ext ty data =>
      if ty = BIGNUM_POS then .binary data
      else if ty = BIGNUM_NEG then .binary data
      else if ty = TIMESTAMP_EXT then
        match decodeTimestamp data with
        | some (secs, nanos) => instantShape secs nanos
        | none => opaqueShape ty data
      else opaqueShape ty data
  | m => m

/-- The item without `ext` that is shown as this one is directly.  It differs from `cborShape`
for timestamps and bignums. -/
def directShape : Mp → Mp
  | .ext ty data =>
      if ty = TIMESTAMP_EXT then
        match decodeTimestamp data with
        | some (secs, nanos) =>
            .map [(.string (.text "timestamp"), .string (.text (rfc3339 secs nanos)))]
        | none => opaqueShape ty data
      else opaqueShape ty data
  | m => m

/-! ## The relation -/

/-- The first item, which is no `ext`, comes out through CBOR as the second does directly:
both are scalars that are shown alike, or arrays with items that come out alike in turn, or
maps that show the same object keys with values that come out alike. -/
inductive ShapesAlike (platform : Platform) : Mp → Mp → Prop
  | scalar {m n : Mp} (hm : isScalar m = true) (hn : isScalar n = true)
      (h : scalarToJson platform m = scalarToJson platform n) : ShapesAlike platform m n
  | array {items others : List Mp} (hlen : items.length = others.length)
      (h : ∀ p ∈ items.zip others, ShapesAlike platform (cborShape p.1) (directShape p.2)) :
      ShapesAlike platform (.array items) (.array others)
  | map {entries others : List (Mp × Mp)}
      (hkeys : ∀ key, lastOf (cborKey platform) key entries = none ↔
        lastOf (directKey platform) key others = none)
      (hvalues : ∀ key e f, lastOf (cborKey platform) key entries = some e →
        lastOf (directKey platform) key others = some f →
        ShapesAlike platform (cborShape e.2) (directShape f.2)) :
      ShapesAlike platform (.map entries) (.map others)

/-- The first item comes out through CBOR as the second does directly. -/
def ShownAlike (platform : Platform) (m n : Mp) : Prop :=
  ShapesAlike platform (cborShape m) (directShape n)

/-! ## Shapes are shown as the items are -/

theorem integerToJson_eq (n : MpInteger) : integerToJson n = intToJson n.val := by
  unfold integerToJson intToJson
  cases hu : (Ranged.tryFrom _ _ n.val : Option U64) with
  | some u => rfl
  | none =>
      cases hi : (Ranged.tryFrom _ _ n.val : Option I64) with
      | some i => rfl
      | none =>
          -- Every MessagePack integer is a `u64` or an `i64`.
          have hge := n.ge
          have hlt := n.lt
          rw [Ranged.tryFrom_eq_none_iff] at hu hi
          omega

theorem throughCbor_scalar {m : Mp} (h : isScalar m = true) :
    throughCbor platform m = mpToJson platform m := by
  cases m with
  | nil => rfl
  | boolean b => rfl
  | integer n =>
      rw [throughCbor, mpToCbor, toJsonValue, mpToJson, integerToJson_eq, Ranged.widen_val]
  | f32 f => rfl
  | f64 f => rfl
  | string s => cases s <;> rfl
  | binary b => rfl
  | array items => cases h
  | map entries => cases h
  | ext ty data => cases h

theorem throughCbor_ext (ty : I8) (data : Bytes) :
    throughCbor platform (.ext ty data) = toJsonValue platform (extToCbor ty data) := by
  rw [throughCbor, mpToCbor]

theorem throughCbor_scalarToJson {m : Mp} (h : isScalar m = true) :
    throughCbor platform m = scalarToJson platform m := by
  rw [throughCbor_scalar h]
  cases m with
  | string s => cases s <;> rfl
  | array items => cases h
  | map entries => cases h
  | ext ty data => cases h
  | _ => rfl

theorem throughCbor_wholeShape (n : I128) :
    throughCbor platform (wholeShape n) = toJsonValue platform (Bignum.toValue n) := by
  unfold wholeShape Bignum.toValue
  cases hmp : (Ranged.tryFrom _ _ n.val : Option MpInteger) with
  | some i =>
      have hi := Ranged.tryFrom_eq_some_iff.1 hmp
      cases hint : (Ranged.tryFrom _ _ n.val : Option Integer) with
      | none =>
          have hge := i.ge
          have hlt := i.lt
          rw [Ranged.tryFrom_eq_none_iff] at hint
          omega
      | some j =>
          have hj := Ranged.tryFrom_eq_some_iff.1 hint
          rw [throughCbor, mpToCbor, toJsonValue, toJsonValue, Ranged.widen_val]
          rw [hi, hj]
  | none =>
      cases hint : (Ranged.tryFrom _ _ n.val : Option Integer) with
      | none =>
          show throughCbor platform (if _ then _ else _) = toJsonValue platform (if _ then _ else _)
          split_ifs <;> rfl
      | some j =>
          have hj := Ranged.tryFrom_eq_some_iff.1 hint
          have hlt := j.lt
          rw [Ranged.tryFrom_eq_none_iff] at hmp
          have hu : (Ranged.tryFrom _ _ j.val : Option U64) = none :=
            Ranged.tryFrom_eq_none_iff.2 (by omega)
          have hs : (Ranged.tryFrom _ _ j.val : Option I64) = none :=
            Ranged.tryFrom_eq_none_iff.2 (by omega)
          simp only [throughCbor, mpToCbor, toJsonValue, intToJson, hu, hs]

theorem throughCbor_instantShape (secs : I64) (nanos : U32) :
    throughCbor platform (instantShape secs nanos) =
      toJsonValue platform (instantToCbor secs nanos) := by
  unfold instantShape instantToCbor
  split_ifs with hwhole
  · rfl
  · rw [throughCbor_array, List.map_cons, List.map_cons, List.map_nil, throughCbor_wholeShape,
      toJsonValue, toJsonValue, toJsonValue, toJsonItems, toJsonItems, toJsonItems]
    rfl

theorem throughCbor_opaqueShape (ty : I8) (data : Bytes) :
    throughCbor platform (opaqueShape ty data) = toJsonValue platform
      (.map [(.text "ext_type", .integer ty.widen), (.text "data", .bytes data)]) := by
  rw [throughCbor, opaqueShape, mpToCbor, entriesToCbor_eq_map]
  rfl

theorem mpToJson_opaqueShape (ty : I8) (data : Bytes) :
    mpToJson platform (opaqueShape ty data) = .object (insert "data" (.string (b64url data))
      (insert "ext_type" (intToJson ty.val) [])) := by
  rw [opaqueShape, mpToJson, mpToJsonMembers, mpToJsonMembers, mpToJsonMembers, mpToJson,
    integerToJson_eq]
  rfl

/-- The shape of an item comes out through CBOR as the item does. -/
theorem throughCbor_cborShape (m : Mp) :
    throughCbor platform (cborShape m) = throughCbor platform m := by
  cases m with
  | ext ty data =>
      rw [throughCbor_ext, cborShape, extToCbor]
      by_cases hpos : ty = BIGNUM_POS
      · subst hpos
        rfl
      · by_cases hneg : ty = BIGNUM_NEG
        · subst hneg
          rfl
        · simp only [if_neg hpos, if_neg hneg]
          split_ifs with htime
          · cases decodeTimestamp data with
            | some parts => exact throughCbor_instantShape parts.1 parts.2
            | none => exact throughCbor_opaqueShape ty data
          · exact throughCbor_opaqueShape ty data
  | _ => rfl

/-- The shape of an item comes out directly as the item does. -/
theorem mpToJson_directShape (m : Mp) :
    mpToJson platform (directShape m) = mpToJson platform m := by
  cases m with
  | ext ty data =>
      rw [mpToJson, directShape, extToJson]
      split_ifs with htime
      · cases hdecode : decodeTimestamp data with
        | some parts => rfl
        | none => exact mpToJson_opaqueShape ty data
      · exact mpToJson_opaqueShape ty data
  | _ => rfl

/-! ## The relation is exact -/

def isExt : Mp → Bool
  | .ext _ _ => true
  | _ => false

/-- For the item on its left the relation says when the renderings are the same, whatever
stands on its right. -/
def AlikeExact (platform : Platform) (m : Mp) : Prop :=
  ∀ n, ShownAlike platform m n ↔ throughCbor platform m = mpToJson platform n

theorem isExt_directShape (n : Mp) : isExt (directShape n) = false := by
  cases n with
  | ext ty data =>
      rw [directShape]
      split_ifs
      · cases decodeTimestamp data <;> rfl
      · rfl
  | _ => rfl

/-- It is enough to look at items on the right that are no `ext`. -/
theorem alikeExact_of_shape {m : Mp} (h : ∀ n, isExt n = false →
      (ShapesAlike platform (cborShape m) n ↔
        throughCbor platform (cborShape m) = mpToJson platform n)) :
    AlikeExact platform m := by
  intro n
  rw [ShownAlike, h _ (isExt_directShape n), throughCbor_cborShape, mpToJson_directShape]

theorem mpToJson_scalarToJson {m : Mp} (h : isScalar m = true) :
    mpToJson platform m = scalarToJson platform m := by
  rw [← throughCbor_scalar h, throughCbor_scalarToJson h]

/-- A scalar is shown neither as an array nor as an object. -/
theorem scalarToJson_simple (m : Mp) :
    (∀ items, scalarToJson platform m ≠ .array items) ∧
      ∀ members, scalarToJson platform m ≠ .object members := by
  cases m with
  | integer n =>
      rw [scalarToJson, integerToJson_eq, intToJson]
      split
      · simp
      · split <;> simp
  | f32 f =>
      rw [scalarToJson, floatToJson]
      split_ifs <;> simp
  | f64 f =>
      rw [scalarToJson, floatToJson]
      split_ifs <;> simp
  | string s => cases s <;> simp [scalarToJson]
  | _ => simp [scalarToJson]

theorem shapesAlike_scalar_iff {m n : Mp} (hm : isScalar m = true) :
    ShapesAlike platform m n ↔
      isScalar n = true ∧ scalarToJson platform m = scalarToJson platform n := by
  constructor
  · intro h
    cases h with
    | scalar _ hn heq => exact ⟨hn, heq⟩
    | array => cases hm
    | map => cases hm
  · exact fun h => .scalar hm h.1 h.2

theorem shapesAlike_array_iff {items : List Mp} {n : Mp} :
    ShapesAlike platform (.array items) n ↔
      ∃ others, n = .array others ∧ items.length = others.length ∧
        ∀ p ∈ items.zip others, ShownAlike platform p.1 p.2 := by
  constructor
  · intro h
    cases h with
    | scalar h => cases h
    | array hlen h => exact ⟨_, rfl, hlen, h⟩
  · rintro ⟨others, rfl, hlen, h⟩
    exact .array hlen h

theorem shapesAlike_map_iff {entries : List (Mp × Mp)} {n : Mp} :
    ShapesAlike platform (.map entries) n ↔
      ∃ others, n = .map others ∧
        (∀ key, lastOf (cborKey platform) key entries = none ↔
          lastOf (directKey platform) key others = none) ∧
        ∀ key e f, lastOf (cborKey platform) key entries = some e →
          lastOf (directKey platform) key others = some f → ShownAlike platform e.2 f.2 := by
  constructor
  · intro h
    cases h with
    | scalar h => cases h
    | map hkeys hvalues => exact ⟨_, rfl, hkeys, hvalues⟩
  · rintro ⟨others, rfl, hkeys, hvalues⟩
    exact .map hkeys hvalues

/-- Two lists are mapped alike exactly if they are as long and their elements in turn are. -/
theorem map_eq_map_iff_zip {α β γ : Type*} {f : α → γ} {g : β → γ} {l : List α} {l' : List β} :
    l.map f = l'.map g ↔ l.length = l'.length ∧ ∀ p ∈ l.zip l', f p.1 = g p.2 := by
  rw [← List.forall₂_eq_eq_eq, List.forall₂_map_left_iff, List.forall₂_map_right_iff,
    List.forall₂_iff_zip]
  simp only [Prod.forall]

/-- Two maps come out alike exactly if under every object key the entries that are shown
are both missing or have values that come out alike. -/
theorem throughCbor_map_iff {entries others : List (Mp × Mp)} :
    throughCbor platform (.map entries) = mpToJson platform (.map others) ↔
      (∀ key, lastOf (cborKey platform) key entries = none ↔
        lastOf (directKey platform) key others = none) ∧
      ∀ key e f, lastOf (cborKey platform) key entries = some e →
        lastOf (directKey platform) key others = some f →
        throughCbor platform e.2 = mpToJson platform f.2 := by
  rw [throughCbor_map, mpToJson, mpToJsonMembers_eq_fill, Json.object.injEq, fill_eq_iff,
    ← forall_and]
  refine forall_congr' fun key => ?_
  cases lastOf (cborKey platform) key entries with
  | none => simp [eq_comm]
  | some e =>
      cases lastOf (directKey platform) key others with
      | none => simp
      | some f => simp

theorem alikeExact_scalar {m : Mp} (hm : isScalar m = true) (n : Mp) (hn : isExt n = false) :
    ShapesAlike platform m n ↔ throughCbor platform m = mpToJson platform n := by
  obtain ⟨harray, hobject⟩ := @scalarToJson_simple platform m
  rw [shapesAlike_scalar_iff hm, throughCbor_scalarToJson hm]
  cases n with
  | array others =>
      rw [mpToJson]
      exact iff_of_false (fun h => Bool.noConfusion h.1) (harray _)
  | map others =>
      rw [mpToJson]
      exact iff_of_false (fun h => Bool.noConfusion h.1) (hobject _)
  | ext ty data => cases hn
  | _ =>
      rw [mpToJson_scalarToJson rfl]
      exact and_iff_right rfl

theorem alikeExact_array {items : List Mp} (ih : ∀ v ∈ items, AlikeExact platform v) (n : Mp)
    (hn : isExt n = false) :
    ShapesAlike platform (.array items) n ↔
      throughCbor platform (.array items) = mpToJson platform n := by
  rw [shapesAlike_array_iff, throughCbor_array]
  cases n with
  | array others =>
      rw [mpToJson, mpToJsonItems_eq_map, Json.array.injEq, map_eq_map_iff_zip]
      have hitems : (∀ p ∈ items.zip others, ShownAlike platform p.1 p.2) ↔
          ∀ p ∈ items.zip others, throughCbor platform p.1 = mpToJson platform p.2 :=
        forall₂_congr fun p hp => ih p.1 (List.of_mem_zip hp).1 p.2
      rw [← hitems]
      simp
  | map others =>
      rw [mpToJson]
      exact iff_of_false (by rintro ⟨_, h, -⟩; cases h) Json.noConfusion
  | ext ty data => cases hn
  | _ =>
      rw [mpToJson_scalarToJson rfl]
      exact iff_of_false (by rintro ⟨_, h, -⟩; cases h) fun h =>
        scalarToJson_simple _ |>.1 _ h.symm

theorem alikeExact_map {entries : List (Mp × Mp)}
    (ih : ∀ e ∈ entries, AlikeExact platform e.2) (n : Mp) (hn : isExt n = false) :
    ShapesAlike platform (.map entries) n ↔
      throughCbor platform (.map entries) = mpToJson platform n := by
  rw [shapesAlike_map_iff]
  cases n with
  | map others =>
      rw [throughCbor_map_iff]
      have hvalue {key : String} {e : Mp × Mp} (f : Mp × Mp)
          (he : lastOf (cborKey platform) key entries = some e) :
          ShownAlike platform e.2 f.2 ↔ throughCbor platform e.2 = mpToJson platform f.2 :=
        ih e (last?_some he).1 f.2
      constructor
      · rintro ⟨_, ⟨⟩, hkeys, hvalues⟩
        exact ⟨hkeys, fun key e f he hf => (hvalue f he).1 (hvalues key e f he hf)⟩
      · rintro ⟨hkeys, hvalues⟩
        exact ⟨others, rfl, hkeys, fun key e f he hf => (hvalue f he).2 (hvalues key e f he hf)⟩
  | array others =>
      rw [throughCbor_map, mpToJson]
      exact iff_of_false (by rintro ⟨_, h, -⟩; cases h) Json.noConfusion
  | ext ty data => cases hn
  | _ =>
      rw [throughCbor_map, mpToJson_scalarToJson rfl]
      exact iff_of_false (by rintro ⟨_, h, -⟩; cases h) fun h =>
        scalarToJson_simple _ |>.2 _ h.symm

theorem alikeExact_of_scalar {m : Mp} (hm : isScalar m = true) : AlikeExact platform m := by
  refine alikeExact_of_shape fun n hn => ?_
  have hshape : cborShape m = m := by
    cases m with
    | ext ty data => cases hm
    | _ => rfl
  rw [hshape]
  exact alikeExact_scalar hm n hn

theorem isScalar_wholeShape (n : I128) : isScalar (wholeShape n) = true := by
  unfold wholeShape
  split
  · rfl
  · split
    · rfl
    · split_ifs <;> rfl

/-- What an `ext` item is reduced to holds scalars only. -/
theorem alikeExact_ext (ty : I8) (data : Bytes) : AlikeExact platform (.ext ty data) := by
  refine alikeExact_of_shape fun n hn => ?_
  have hopaque : ShapesAlike platform (opaqueShape ty data) n ↔
      throughCbor platform (opaqueShape ty data) = mpToJson platform n := by
    refine alikeExact_map (fun e he => alikeExact_of_scalar ?_) n hn
    fin_cases he <;> rfl
  have hinstant (secs : I64) (nanos : U32) : ShapesAlike platform (instantShape secs nanos) n ↔
      throughCbor platform (instantShape secs nanos) = mpToJson platform n := by
    unfold instantShape
    split_ifs
    · exact alikeExact_scalar rfl n hn
    · refine alikeExact_array (fun v hv => alikeExact_of_scalar ?_) n hn
      rcases List.mem_pair.1 hv with rfl | rfl
      · rfl
      · exact isScalar_wholeShape _
  rw [cborShape]
  split_ifs
  · exact alikeExact_scalar rfl n hn
  · exact alikeExact_scalar rfl n hn
  · cases decodeTimestamp data with
    | some parts => exact hinstant parts.1 parts.2
    | none => exact hopaque
  · exact hopaque

/-- The relation says when an item comes out through CBOR as another does directly. -/
theorem shownAlike_iff (m n : Mp) :
    ShownAlike platform m n ↔ throughCbor platform m = mpToJson platform n := by
  revert n
  induction m with
  | array items ih => exact alikeExact_of_shape (alikeExact_array ih)
  | map entries ih => exact alikeExact_of_shape (alikeExact_map fun e he => (ih e he).2)
  | ext ty data => exact alikeExact_ext ty data
  | _ => exact alikeExact_of_scalar rfl

end VgiCbor.Msgpack
