import VgiCbor.Lib.KeySort
import VgiCbor.Core.Value

/-!
# Deterministic encoding

`canonicalize` re-orders the entries of every map by the encoded bytes of their
canonicalized keys: bytewise (RFC 8949 core), or shorter keys first (CTAP2).  It
computes a normal form for the relation `Reorders`: two values that differ only
in the order of map entries.
-/

namespace VgiCbor

open KeySort

/-- Which canonical map-key ordering to apply. -/
inductive Canon where
  | core
  | ctap2
  deriving DecidableEq

/-- How a mode compares two encoded keys: `core` bytewise, `ctap2` by their length first. -/
def Canon.compareKeys : Canon → Bytes → Bytes → Ordering
  | .core, a, b => compare a b
  | .ctap2, a, b => (compare a.length b.length).then (compare a b)

instance (mode : Canon) : Std.TransCmp mode.compareKeys := by
  cases mode with
  | core => exact inferInstanceAs (Std.TransCmp (compare : Bytes → Bytes → Ordering))
  | ctap2 =>
      exact inferInstanceAs
        (Std.TransCmp (compareLex (compareOn (List.length : Bytes → Nat)) compare))

instance (mode : Canon) : Std.LawfulEqCmp mode.compareKeys where
  eq_of_compare {a b} h := by
    have hbytes : compare a b = .eq := by
      cases mode with
      | core => exact h
      | ctap2 => exact (Ordering.then_eq_eq.1 h).2
    exact Std.LawfulEqCmp.eq_of_compare hbytes

variable (codec : CborCodec)

/-- Encode a single CBOR value to bytes.  The only error is one of the writer, with its text. -/
def encodeValue (value : Value) : Except String Bytes :=
  match codec.encode value with
  | .ok bytes => .ok bytes
  | .error e => .error s!"encode: {e}"

/-- The encoded bytes of a key, for canonical ordering comparisons. -/
def keyBytes (value : Value) : Bytes := (encodeValue codec value).toOption.getD []

mutual

/-- Recursively re-order every map in a value, those inside keys included.  Keys are compared
by their encodings after they have been canonicalized themselves. -/
def canonicalize (mode : Canon) : Value → Value
  | .array items => .array (canonicalizeItems mode items)
  | .map entries =>
      let canon := canonicalizeEntries mode entries
      .map (sortBy (fun e => keyBytes codec e.1) mode.compareKeys canon)
  | .tag t inner => .tag t (canonicalize mode inner)
  | other => other

/-- `items.into_iter().map(|v| canonicalize(v, mode))` -/
def canonicalizeItems (mode : Canon) : List Value → List Value
  | [] => []
  | v :: vs => canonicalize mode v :: canonicalizeItems mode vs

/-- Canonicalize keys and values of all entries, in place. -/
def canonicalizeEntries (mode : Canon) : List (Value × Value) → List (Value × Value)
  | [] => []
  | (k, v) :: es => (canonicalize mode k, canonicalize mode v) :: canonicalizeEntries mode es

end

/-- Decode, canonicalize, and re-encode.  The blob must be one item with nothing behind it. -/
def canonical (bytes : Bytes) (mode : Canon) : Except DecodeError Bytes :=
  match parseStrict codec bytes with
  | .error e => .error e
  | .ok value =>
      match encodeValue codec (canonicalize codec mode value) with
      | .error message => .error (.structural message)
      | .ok out => .ok out

variable {codec} {mode : Canon}

theorem canonicalizeItems_eq_map (items : List Value) :
    canonicalizeItems codec mode items = items.map (canonicalize codec mode) := by
  induction items with
  | nil => rfl
  | cons v vs ih => rw [canonicalizeItems, ih, List.map_cons]

def canonicalizeEntry (codec : CborCodec) (mode : Canon) (e : Value × Value) : Value × Value :=
  (canonicalize codec mode e.1, canonicalize codec mode e.2)

theorem canonicalizeEntries_eq_map (entries : List (Value × Value)) :
    canonicalizeEntries codec mode entries =
      entries.map (canonicalizeEntry codec mode) := by
  induction entries with
  | nil => rfl
  | cons e es ih => rw [canonicalizeEntries, ih, List.map_cons, canonicalizeEntry]

/-! ## A property of every map inside a value -/

namespace Value

variable {P : List (Value × Value) → Prop}

mutual

/-- `P` holds of the entries of every map in the value, at any depth: below
arrays and tags, and inside keys. -/
def EveryMap (P : List (Value × Value) → Prop) : Value → Prop
  | .array items => EveryMapItems P items
  | .map entries => P entries ∧ EveryMapEntries P entries
  | .tag _ inner => EveryMap P inner
  | _ => True

def EveryMapItems (P : List (Value × Value) → Prop) : List Value → Prop
  | [] => True
  | v :: vs => EveryMap P v ∧ EveryMapItems P vs

def EveryMapEntries (P : List (Value × Value) → Prop) : List (Value × Value) → Prop
  | [] => True
  | (k, v) :: es => (EveryMap P k ∧ EveryMap P v) ∧ EveryMapEntries P es

end

@[simp] theorem everyMap_array {items : List Value} :
    EveryMap P (.array items) ↔ ∀ v ∈ items, EveryMap P v := by
  rw [EveryMap]
  induction items with
  | nil => simp [EveryMapItems]
  | cons v vs ih => rw [EveryMapItems, ih, List.forall_mem_cons]

@[simp] theorem everyMap_map {entries : List (Value × Value)} :
    EveryMap P (.map entries) ↔
      P entries ∧ ∀ e ∈ entries, EveryMap P e.1 ∧ EveryMap P e.2 := by
  have hentries (es : List (Value × Value)) :
      EveryMapEntries P es ↔ ∀ e ∈ es, EveryMap P e.1 ∧ EveryMap P e.2 := by
    induction es with
    | nil => simp [EveryMapEntries]
    | cons e es ih => rw [EveryMapEntries, ih, List.forall_mem_cons]
  rw [EveryMap, hentries]

/-- What follows for a map from a property of it and of the maps inside its keys, follows for
every map of a value. -/
theorem EveryMap.imp {P Q : List (Value × Value) → Prop}
    (h : ∀ entries, P entries → (∀ e ∈ entries, e.1.EveryMap P) → Q entries) {v : Value}
    (hv : v.EveryMap P) : v.EveryMap Q := by
  induction v with
  | array items ih =>
      rw [everyMap_array] at hv ⊢
      exact fun v hmem => ih v hmem (hv v hmem)
  | map entries ih =>
      obtain ⟨hentries, hinside⟩ := everyMap_map.1 hv
      refine everyMap_map.2 ⟨h entries hentries fun e he => (hinside e he).1, ?_⟩
      exact fun e he => ⟨(ih e he).1 (hinside e he).1, (ih e he).2 (hinside e he).2⟩
  | tag t inner ih =>
      rw [Value.EveryMap] at hv ⊢
      exact ih hv
  | _ => trivial

/-- Two properties of every map at once. -/
theorem EveryMap.and {P Q : List (Value × Value) → Prop} {v : Value} (hp : v.EveryMap P)
    (hq : v.EveryMap Q) : v.EveryMap fun entries => P entries ∧ Q entries := by
  induction v with
  | array items ih =>
      rw [everyMap_array] at hp hq ⊢
      exact fun v hmem => ih v hmem (hp v hmem) (hq v hmem)
  | map entries ih =>
      obtain ⟨hpe, hpi⟩ := everyMap_map.1 hp
      obtain ⟨hqe, hqi⟩ := everyMap_map.1 hq
      refine everyMap_map.2 ⟨⟨hpe, hqe⟩, fun e he => ?_⟩
      exact ⟨(ih e he).1 (hpi e he).1 (hqi e he).1, (ih e he).2 (hpi e he).2 (hqi e he).2⟩
  | tag t inner ih =>
      rw [EveryMap] at hp hq ⊢
      exact ih hp hq
  | _ => trivial

end Value

/-! ## Values that differ in the order of map entries -/

/-- `w` is `v` with the entries of maps permuted, at any depths: the least
congruence that contains the permutations of the entries of one map. -/
inductive Reorders : Value → Value → Prop
  | refl (v) : Reorders v v
  | trans {u v w} (h₁ : Reorders u v) (h₂ : Reorders v w) : Reorders u w
  | item {v w} (before after : List Value) (h : Reorders v w) :
      Reorders (.array (before ++ v :: after)) (.array (before ++ w :: after))
  | entry {k k' v v'} (before after : List (Value × Value)) (hk : Reorders k k')
      (hv : Reorders v v') :
      Reorders (.map (before ++ (k, v) :: after)) (.map (before ++ (k', v') :: after))
  | tag {v w} (t : UInt64) (h : Reorders v w) : Reorders (.tag t v) (.tag t w)
  | perm {es fs : List (Value × Value)} (h : es.Perm fs) : Reorders (.map es) (.map fs)

namespace Reorders

/-- Reordering inside every item reorders the array. -/
theorem array_map {f : Value → Value} (before : List Value) {items : List Value}
    (h : ∀ v ∈ items, Reorders v (f v)) :
    Reorders (.array (before ++ items)) (.array (before ++ items.map f)) := by
  induction items generalizing before with
  | nil => exact .refl _
  | cons v vs ih =>
      have hrest := ih (before ++ [f v]) fun w hw => h w (List.mem_cons_of_mem _ hw)
      rw [List.append_assoc, List.append_assoc] at hrest
      exact (Reorders.item before vs (h v (by simp))).trans hrest

/-- Reordering inside every key and value reorders the map. -/
theorem map_map {f : Value → Value} (before : List (Value × Value))
    {entries : List (Value × Value)}
    (h : ∀ e ∈ entries, Reorders e.1 (f e.1) ∧ Reorders e.2 (f e.2)) :
    Reorders (.map (before ++ entries))
      (.map (before ++ entries.map fun e => (f e.1, f e.2))) := by
  induction entries generalizing before with
  | nil => exact .refl _
  | cons e es ih =>
      obtain ⟨hk, hv⟩ := h e (by simp)
      have hrest := ih (before ++ [(f e.1, f e.2)]) fun e' he => h e' (List.mem_cons_of_mem _ he)
      rw [List.append_assoc, List.append_assoc] at hrest
      exact (Reorders.entry before es hk hv).trans hrest

end Reorders

/-! ## The normal form -/

/-- The entries stand in non-decreasing order of their encoded keys. -/
def EntriesOrdered (codec : CborCodec) (mode : Canon) (entries : List (Value × Value)) : Prop :=
  SortedBy (fun e => keyBytes codec e.1) mode.compareKeys entries

/-- Every map of a canonicalized value, keys included, is ordered: the sort compares exactly
the keys that are written. -/
theorem canonicalize_ordered (v : Value) :
    (canonicalize codec mode v).EveryMap (EntriesOrdered codec mode) := by
  induction v with
  | null => trivial
  | bool b => trivial
  | integer n => trivial
  | float f => trivial
  | text s => trivial
  | bytes b => trivial
  | array items ih =>
      rw [canonicalize, canonicalizeItems_eq_map, Value.everyMap_array]
      intro w hw
      obtain ⟨v, hv, rfl⟩ := List.mem_map.1 hw
      exact ih v hv
  | map entries ih =>
      simp only [canonicalize, canonicalizeEntries_eq_map, Value.everyMap_map]
      refine ⟨sortBy_sorted _ _ _, fun e he => ?_⟩
      have hmem := (sortBy_perm _ _ _).mem_iff.1 he
      obtain ⟨e', he', rfl⟩ := List.mem_map.1 hmem
      exact ih e' he'
  | tag t inner ih =>
      rw [canonicalize, Value.EveryMap]
      exact ih

/-- A property of maps that does not depend on the order of the entries holds in the
canonical form if it holds of the canonicalized entries. -/
theorem everyMap_canonicalize {P : List (Value × Value) → Prop}
    (hperm : ∀ es fs : List (Value × Value), es.Perm fs → (P es ↔ P fs)) {v : Value} :
    (canonicalize codec mode v).EveryMap P ↔
      v.EveryMap fun entries => P (entries.map (canonicalizeEntry codec mode)) := by
  induction v with
  | array items ih =>
      rw [canonicalize, canonicalizeItems_eq_map, Value.everyMap_array, Value.everyMap_array,
        List.forall_mem_map]
      exact forall₂_congr ih
  | map entries ih =>
      simp only [canonicalize, canonicalizeEntries_eq_map]
      have hsort := sortBy_perm (fun e => keyBytes codec e.1) mode.compareKeys
        (entries.map (canonicalizeEntry codec mode))
      rw [Value.everyMap_map, Value.everyMap_map, hperm _ _ hsort]
      refine and_congr_right fun _ => ?_
      simp only [hsort.mem_iff, List.forall_mem_map]
      exact forall₂_congr fun e he => and_congr (ih e he).1 (ih e he).2
  | tag t inner ih => rw [canonicalize, Value.EveryMap, Value.EveryMap, ih]
  | _ => exact iff_of_true trivial trivial

/-- Canonicalizing only permutes the entries of maps. -/
theorem reorders_canonicalize (v : Value) : Reorders v (canonicalize codec mode v) := by
  induction v with
  | null => exact .refl _
  | bool b => exact .refl _
  | integer n => exact .refl _
  | float f => exact .refl _
  | text s => exact .refl _
  | bytes b => exact .refl _
  | array items ih =>
      rw [canonicalize, canonicalizeItems_eq_map]
      exact Reorders.array_map [] ih
  | map entries ih =>
      simp only [canonicalize, canonicalizeEntries_eq_map]
      have hinside := Reorders.map_map [] ih
      exact hinside.trans (.perm (sortBy_perm _ _ _).symm)
  | tag t inner ih =>
      rw [canonicalize]
      exact .tag t ih

/-- A value whose maps are all ordered is its own normal form.  Idempotence is a case of this. -/
theorem canonicalize_eq_self {v : Value} (h : v.EveryMap (EntriesOrdered codec mode)) :
    canonicalize codec mode v = v := by
  induction v with
  | null => rfl
  | bool b => rfl
  | integer n => rfl
  | float f => rfl
  | text s => rfl
  | bytes b => rfl
  | array items ih =>
      rw [Value.everyMap_array] at h
      rw [canonicalize, canonicalizeItems_eq_map]
      congr 1
      exact (List.map_congr_left fun v hv => ih v hv (h v hv)).trans (List.map_id _)
  | map entries ih =>
      obtain ⟨hsorted, hinside⟩ := Value.everyMap_map.1 h
      have hentries : entries.map (canonicalizeEntry codec mode) = entries := by
        refine (List.map_congr_left fun e he => ?_).trans (List.map_id _)
        rw [canonicalizeEntry, (ih e he).1 (hinside e he).1, (ih e he).2 (hinside e he).2]
        rfl
      simp only [canonicalize, canonicalizeEntries_eq_map, hentries]
      rw [sortBy_eq_self hsorted]
  | tag t inner ih =>
      rw [canonicalize, ih (by rwa [Value.EveryMap] at h)]

/-- Canonicalizing keeps the nesting depth. -/
theorem depth_canonicalize (v : Value) : (canonicalize codec mode v).depth = v.depth := by
  apply eq_of_forall_ge_iff
  intro n
  induction v generalizing n with
  | null => rfl
  | bool b => rfl
  | integer m => rfl
  | float f => rfl
  | text s => rfl
  | bytes b => rfl
  | array items ih =>
      rw [canonicalize, canonicalizeItems_eq_map, Value.depth, Value.depth]
      cases n with
      | zero => simp
      | succ n =>
          rw [Nat.add_le_add_iff_right, Nat.add_le_add_iff_right, Value.depthItems_le,
            Value.depthItems_le, List.forall_mem_map]
          exact forall₂_congr fun v hv => ih v hv n
  | map entries ih =>
      simp only [canonicalize, canonicalizeEntries_eq_map, Value.depth]
      cases n with
      | zero => simp
      | succ n =>
          rw [Nat.add_le_add_iff_right, Nat.add_le_add_iff_right, Value.depthEntries_le,
            Value.depthEntries_le]
          -- Sorting does not change which entries there are.
          have hmem (e : Value × Value) := (sortBy_perm (fun e => keyBytes codec e.1)
            mode.compareKeys (entries.map (canonicalizeEntry codec mode))).mem_iff (a := e)
          simp only [hmem, List.forall_mem_map]
          exact forall₂_congr fun e he => and_congr ((ih e he).1 n) ((ih e he).2 n)
  | tag t inner ih =>
      rw [canonicalize, Value.depth, Value.depth]
      cases n with
      | zero => simp
      | succ n => rw [Nat.add_le_add_iff_right, Nat.add_le_add_iff_right, ih n]

theorem canonicalize_idempotent (v : Value) :
    canonicalize codec mode (canonicalize codec mode v) = canonicalize codec mode v :=
  canonicalize_eq_self (canonicalize_ordered v)

/-- Every value encodes, and different values encode differently.  This is all that the order
of keys needs of a codec. -/
structure CborCodec.Injective (codec : CborCodec) : Prop where
  encode_total : ∀ v, ∃ bytes, codec.encode v = .ok bytes
  encode_inj : ∀ v w bytes, codec.encode v = .ok bytes → codec.encode w = .ok bytes → v = w

/-- An encoding that decodes back is injective. -/
theorem CborCodec.RoundTrips.injective (h : codec.RoundTrips) : codec.Injective where
  encode_total := h.encode_total
  encode_inj v w bytes hv hw := by
    have hdec := h.decode_encode v bytes (max v.depth w.depth) hv (Nat.le_max_left _ _)
    rw [h.decode_encode w bytes _ hw (Nat.le_max_right _ _)] at hdec
    cases hdec
    rfl

theorem CborCodec.Injective.keyBytes_injective (h : codec.Injective) :
    Function.Injective (keyBytes codec) := by
  intro v w heq
  obtain ⟨bv, hv⟩ := h.encode_total v
  obtain ⟨bw, hw⟩ := h.encode_total w
  simp only [keyBytes, encodeValue, hv, hw, Except.toOption, Option.getD_some] at heq
  exact h.encode_inj v w bv hv (heq ▸ hw)

/-- No two keys of the map canonicalize to the same key. -/
def KeysDistinct (codec : CborCodec) (mode : Canon) (entries : List (Value × Value)) : Prop :=
  (entries.map fun e => canonicalize codec mode e.1).Nodup

/-- Permuted entries with distinct keys sort to the same list.  With equal keys the sort would
keep their order, as it is stable. -/
theorem canonicalize_map_eq_of_perm (hcodec : codec.Injective) {es fs : List (Value × Value)}
    (hperm : es.Perm fs) (hkeys : KeysDistinct codec mode es) :
    canonicalize codec mode (.map es) = canonicalize codec mode (.map fs) := by
  simp only [canonicalize, canonicalizeEntries_eq_map]
  congr 1
  apply sortBy_eq_of_perm (hperm.map _)
  rw [List.pairwise_map]
  rw [KeysDistinct, List.Nodup, List.pairwise_map] at hkeys
  exact hkeys.imp fun hne heq => hne (hcodec.keyBytes_injective heq)

/-- Reordered values have the same normal form, and distinct keys stay distinct.  The two are
proved together, since each needs the other one level down. -/
theorem Reorders.canonicalize_eq (hcodec : codec.Injective) {v w : Value} (h : Reorders v w)
    (hkeys : v.EveryMap (KeysDistinct codec mode)) :
    w.EveryMap (KeysDistinct codec mode) ∧
      canonicalize codec mode v = canonicalize codec mode w := by
  induction h with
  | refl v => exact ⟨hkeys, rfl⟩
  | trans _ _ ih₁ ih₂ =>
      obtain ⟨hmid, heq₁⟩ := ih₁ hkeys
      obtain ⟨hend, heq₂⟩ := ih₂ hmid
      exact ⟨hend, heq₁.trans heq₂⟩
  | item before after _ ih =>
      rw [Value.everyMap_array] at hkeys
      obtain ⟨hw, heq⟩ := ih (hkeys _ (by simp))
      constructor
      · rw [Value.everyMap_array]
        intro x hx
        rcases List.mem_append.1 hx with hx | hx
        · exact hkeys x (by simp [hx])
        · rcases List.mem_cons.1 hx with rfl | hx
          · exact hw
          · exact hkeys x (by simp [hx])
      · simp only [canonicalize, canonicalizeItems_eq_map, List.map_append, List.map_cons, heq]
  | @entry k k' v v' before after _ _ ihk ihv =>
      rw [Value.everyMap_map] at hkeys
      obtain ⟨hdistinct, hinside⟩ := hkeys
      obtain ⟨hk, hv⟩ := hinside (k, v) (by simp)
      obtain ⟨hk', hkeq⟩ := ihk hk
      obtain ⟨hv', hveq⟩ := ihv hv
      constructor
      · rw [Value.everyMap_map]
        refine ⟨?_, fun e he => ?_⟩
        · -- The reordered key has the normal form of the old one, so it is as distinct.
          simpa only [KeysDistinct, List.map_append, List.map_cons, hkeq] using hdistinct
        · rcases List.mem_append.1 he with he | he
          · exact hinside e (by simp [he])
          · rcases List.mem_cons.1 he with rfl | he
            · exact ⟨hk', hv'⟩
            · exact hinside e (by simp [he])
      · simp only [canonicalize, canonicalizeEntries_eq_map, List.map_append, List.map_cons,
          canonicalizeEntry, hkeq, hveq]
  | tag t _ ih =>
      rw [Value.EveryMap] at hkeys
      obtain ⟨hw, heq⟩ := ih hkeys
      refine ⟨by rwa [Value.EveryMap], ?_⟩
      simp only [canonicalize, heq]
  | perm h =>
      obtain ⟨hdistinct, hinside⟩ := Value.everyMap_map.1 hkeys
      refine ⟨Value.everyMap_map.2 ⟨?_, fun e he => hinside e (h.mem_iff.2 he)⟩,
        canonicalize_map_eq_of_perm hcodec h hdistinct⟩
      exact (h.map _).nodup_iff.1 hdistinct

/-- Reordered inputs canonicalize to the same bytes. -/
theorem canonical_eq_of_reorders (hcodec : codec.Injective) {v w : Value} {bv bw : Bytes}
    (hv : parseStrict codec bv = .ok v) (hw : parseStrict codec bw = .ok w)
    (h : Reorders v w) (hkeys : v.EveryMap (KeysDistinct codec mode)) :
    canonical codec bv mode = canonical codec bw mode := by
  simp only [canonical, hv, hw, (h.canonicalize_eq hcodec hkeys).2]

/-- Canonicalizing an accepted blob succeeds, and the result is accepted again: it is nested
no deeper than the blob was. -/
theorem canonical_ok (hlimit : codec.Limited) {blob : Bytes} {v : Value}
    (hkept : codec.Keeps (canonicalize codec mode v)) (hparse : parseStrict codec blob = .ok v) :
    ∃ out, canonical codec blob mode = .ok out ∧
      parseStrict codec out = .ok (canonicalize codec mode v) := by
  obtain ⟨out, hout⟩ := hkept.encodes
  refine ⟨out, ?_, ?_⟩
  · simp only [canonical, hparse, encodeValue, hout]
  · rw [hkept.parseStrict_encode hout, depth_canonicalize,
      if_pos (hlimit.parseStrict_depth hparse)]

end VgiCbor
