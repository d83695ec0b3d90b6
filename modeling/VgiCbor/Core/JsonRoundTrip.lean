import VgiCbor.Core.CanonicalJson

/-!
# JSON through CBOR and back

`from_json` encodes a document as a CBOR value and sorts the entries of its maps;
`to_json` renders that value.  The document comes back, with every number an integer or a
float as it was and with its objects the same maps (`json_round_trip`).
-/

namespace VgiCbor.Json

open MachineInt SortedMap

variable {platform : Platform} {codec : CborCodec}

/-- Induction with a hypothesis for every item of an array and every member of an object. -/
theorem induct {P : Json → Prop} (null : P .null) (bool : ∀ b, P (.bool b))
    (number : ∀ n, P (.number n)) (string : ∀ s, P (.string s))
    (array : ∀ items, (∀ j ∈ items, P j) → P (.array items))
    (object : ∀ members, (∀ m ∈ members, P m.2) → P (.object members)) (j : Json) : P j := by
  refine @Json.rec P (fun items => ∀ j ∈ items, P j) (fun members => ∀ m ∈ members, P m.2)
    (fun m => P m.2) null bool number string array object ?_ ?_ ?_ ?_ ?_ j
  · simp
  · intro item items hitem hitems
    simpa using ⟨hitem, hitems⟩
  · simp
  · intro member members hmember hmembers m hm
    rcases List.mem_cons.1 hm with rfl | hm
    · exact hmember
    · exact hmembers m hm
  · intro key value hvalue
    exact hvalue

/-! ## Documents -/

mutual

/-- `N` holds of every number and `P` of the members of every object in the document. -/
def Every (N : Number → Prop) (P : List (String × Json) → Prop) : Json → Prop
  | .number n => N n
  | .array items => EveryItem N P items
  | .object members => P members ∧ EveryMember N P members
  | _ => True

def EveryItem (N : Number → Prop) (P : List (String × Json) → Prop) : List Json → Prop
  | [] => True
  | j :: js => Every N P j ∧ EveryItem N P js

def EveryMember (N : Number → Prop) (P : List (String × Json) → Prop) :
    List (String × Json) → Prop
  | [] => True
  | (_, j) :: ms => Every N P j ∧ EveryMember N P ms

end

/-- A number as it is held: an integer is the `i64` only where it is negative, and a float
is neither infinite nor `NaN`. -/
def Number.Valid : Number → Prop
  | .posInt _ => True
  | .negInt n => n.val < 0
  | .float f => f.isFinite

/-- A document with valid numbers, and in every object one member for each key. -/
def Valid (j : Json) : Prop := j.Every Number.Valid fun members => (members.map Prod.fst).Nodup

/-- A document with the members of every object sorted by key. -/
def Ordered (j : Json) : Prop := j.Every (fun _ => True) Sorted

mutual

/-- The same document, with objects compared as maps: as many members, and under every key
the same document. -/
def SameDocument : Json → Json → Prop
  | .null, .null => True
  | .bool b, .bool c => b = c
  | .number n, .number m => n = m
  | .string s, .string t => s = t
  | .array items, .array items' => SameItems items items'
  | .object members, .object members' =>
      members.length = members'.length ∧ SameMembers members members'
  | _, _ => False

def SameItems : List Json → List Json → Prop
  | [], [] => True
  | j :: js, k :: ks => SameDocument j k ∧ SameItems js ks
  | _, _ => False

/-- Every member is found under its key, with the same document.  The order of the members
does not matter. -/
def SameMembers : List (String × Json) → List (String × Json) → Prop
  | [], _ => True
  | (key, j) :: ms, members =>
      (∃ m ∈ members, m.1 = key ∧ SameDocument j m.2) ∧ SameMembers ms members

end

section Every

variable {N : Number → Prop} {P : List (String × Json) → Prop}

theorem every_array {items : List Json} :
    Every N P (.array items) ↔ ∀ j ∈ items, Every N P j := by
  rw [Every]
  induction items with
  | nil => simp [EveryItem]
  | cons j items ih => rw [EveryItem, ih, List.forall_mem_cons]

theorem every_object {members : List (String × Json)} :
    Every N P (.object members) ↔ P members ∧ ∀ m ∈ members, Every N P m.2 := by
  have hmembers (ms : List (String × Json)) :
      EveryMember N P ms ↔ ∀ m ∈ ms, Every N P m.2 := by
    induction ms with
    | nil => simp [EveryMember]
    | cons m ms ih => rw [EveryMember, ih, List.forall_mem_cons]
  rw [Every, hmembers]

end Every

theorem sameItems_map {f : Json → Json} {items : List Json}
    (h : ∀ j ∈ items, SameDocument j (f j)) : SameItems items (items.map f) := by
  induction items with
  | nil => trivial
  | cons j items ih =>
      obtain ⟨hj, hitems⟩ := List.forall_mem_cons.1 h
      exact ⟨hj, ih hitems⟩

theorem sameMembers_of_mem {members found : List (String × Json)}
    (h : ∀ m ∈ members, ∃ m' ∈ found, m'.1 = m.1 ∧ SameDocument m.2 m'.2) :
    SameMembers members found := by
  induction members with
  | nil => trivial
  | cons m members ih =>
      obtain ⟨hm, hmembers⟩ := List.forall_mem_cons.1 h
      exact ⟨hm, ih hmembers⟩

/-! ## Rendering what was encoded -/

/-- The number that a valid number is rendered as, through CBOR. -/
theorem number_round_trip {n : Number} (h : n.Valid) :
    toJsonValue platform (numberToCbor n) = .number n := by
  cases n with
  | posInt u => rw [numberToCbor, toJsonValue, Integer.ofU64_val, intToJson, Ranged.tryFrom_val]
  | negInt i =>
      -- Tried first, the unsigned range has no negative number.
      have hu : (Ranged.tryFrom _ _ i.val : Option U64) = none := by
        rw [Ranged.tryFrom_eq_none_iff]
        rintro ⟨hnonneg, -⟩
        exact absurd hnonneg (not_le.2 h)
      rw [numberToCbor, toJsonValue, Integer.ofI64_val, intToJson, hu, Ranged.tryFrom_val]
  | float f =>
      have hfinite : f.isFinite := h
      rw [numberToCbor, toJsonValue, floatToJson, if_pos hfinite]

/-- The members of an object are inserted under their own keys, so that none replaces another. -/
theorem object_round_trip (members : List (String × Json)) :
    toJsonValue platform (jsonToCbor (.object members)) =
      .object (fill Prod.fst (fun m => toJsonValue platform (jsonToCbor m.2)) members []) := by
  rw [jsonToCbor, toJsonValue, toJsonMembers_eq_fill, membersToCbor_eq_map, fill, List.foldl_map]
  rfl

theorem sameDocument_round_trip {j : Json} (h : j.Valid) :
    SameDocument j (toJsonValue platform (jsonToCbor j)) := by
  induction j using Json.induct with
  | null => trivial
  | bool b => exact rfl
  | number n =>
      rw [Valid, Every] at h
      rw [jsonToCbor, number_round_trip h]
      exact rfl
  | string s => exact rfl
  | array items ih =>
      have hitems := every_array.1 h
      rw [jsonToCbor, toJsonValue, itemsToCbor_eq_map, toJsonItems_eq_map, List.map_map]
      exact sameItems_map fun j hj => ih j hj (hitems j hj)
  | object members ih =>
      obtain ⟨hnodup, hmembers⟩ := every_object.1 h
      rw [object_round_trip]
      -- No member replaces another one.
      let rendered (m : String × Json) := toJsonValue platform (jsonToCbor m.2)
      have hperm := @fill_perm _ _ _ _ _ rendered _ hnodup
      refine ⟨by rw [hperm.length_eq, List.length_map], sameMembers_of_mem fun m hm => ?_⟩
      refine ⟨_, hperm.mem_iff.2 (List.mem_map_of_mem hm), rfl, ?_⟩
      exact ih m hm (hmembers m hm)

theorem eq_round_trip {j : Json} (hvalid : j.Valid) (hordered : j.Ordered) :
    toJsonValue platform (jsonToCbor j) = j := by
  induction j using Json.induct with
  | null => rfl
  | bool b => rfl
  | number n =>
      rw [Valid, Every] at hvalid
      rw [jsonToCbor, number_round_trip hvalid]
  | string s => rfl
  | array items ih =>
      have hitems := every_array.1 hvalid
      have hitems' := every_array.1 hordered
      rw [jsonToCbor, toJsonValue, itemsToCbor_eq_map, toJsonItems_eq_map, List.map_map]
      congr 1
      refine Eq.trans (List.map_congr_left fun j hj => ?_) (List.map_id items)
      exact ih j hj (hitems j hj) (hitems' j hj)
  | object members ih =>
      obtain ⟨-, hmembers⟩ := every_object.1 hvalid
      obtain ⟨hsorted, hmembers'⟩ := every_object.1 hordered
      rw [object_round_trip]
      congr 1
      refine Eq.trans (List.foldl_ext _ _ [] fun obj m hm => ?_) hsorted.fill_self
      show upsert m.1 (toJsonValue platform (jsonToCbor m.2)) obj = _
      rw [ih m hm (hmembers m hm) (hmembers' m hm)]

/-! ## Canonicalizing in between -/

/-- No keys of an encoded document render alike. -/
theorem everyMap_jsonToCbor {mode : Canon} {j : Json} (h : j.Valid) :
    (jsonToCbor j).EveryMap (CollisionsAgree platform codec mode) := by
  induction j using Json.induct with
  | number n => cases n <;> trivial
  | array items ih =>
      have hitems := every_array.1 h
      rw [jsonToCbor, itemsToCbor_eq_map, Value.everyMap_array, List.forall_mem_map]
      exact fun j hj => ih j hj (hitems j hj)
  | object members ih =>
      obtain ⟨hnodup, hmembers⟩ := every_object.1 h
      rw [jsonToCbor, membersToCbor_eq_map, Value.everyMap_map, List.forall_mem_map]
      refine ⟨collisionsAgree_of_nodup ?_, fun m hm => ⟨trivial, ih m hm (hmembers m hm)⟩⟩
      rw [List.map_map]
      exact hnodup
  | _ => trivial

/-- Every document comes back from CBOR as the same document, with each number as it was,
and is equal to what comes back where its objects are sorted. -/
theorem json_round_trip (platform : Platform) (codec : CborCodec) {j : Json} (h : j.Valid) :
    SameDocument j (toJsonValue platform (canonicalize codec .core (jsonToCbor j))) ∧
      (j.Ordered → toJsonValue platform (canonicalize codec .core (jsonToCbor j)) = j) := by
  have hcanon : toJsonValue platform (canonicalize codec .core (jsonToCbor j)) =
      toJsonValue platform (jsonToCbor j) :=
    all_rendersAlike_iff.2 (everyMap_jsonToCbor h) _ (.self _)
  rw [hcanon]
  exact ⟨sameDocument_round_trip h, eq_round_trip h⟩

/-- An object whose members are not in order, with an integer and the float of the same
value. -/
def sampleDocument : Json :=
  .object [("b", .number (.negInt (I64.wrap (-1)))),
    ("a", .array [.number (.float ⟨0xBFF0000000000000⟩), .null])]

theorem json_round_trip_sample :
    SameDocument sampleDocument
      (toJsonValue .bare (canonicalize Definite.codec .core (jsonToCbor sampleDocument))) := by
  have hkeys : ["b", "a"].Nodup := by decide
  have hnegative : (I64.wrap (-1)).val < 0 := by decide
  have hfinite : (Binary64.F64.mk 0xBFF0000000000000).isFinite = true := by decide
  have hvalid : sampleDocument.Valid :=
    ⟨hkeys, hnegative, ⟨hfinite, trivial, trivial⟩, trivial⟩
  exact (json_round_trip .bare Definite.codec hvalid).1

end VgiCbor.Json
