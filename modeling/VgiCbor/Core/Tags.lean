import VgiCbor.Core.CanonicalJson
import VgiCbor.Core.Diagnostic

/-!
# The tag walk

`tags` lists the semantic tags of a blob with their locations, and `untag` the contents of
one tag.  Both go through the items of arrays, the values of maps and the contents of tags,
in encoding order, and visit the same nodes (`untag_eq_tags`).  Neither goes into map keys:
the list is complete exactly if no key contains a tag (`tags_complete_iff`).
-/

namespace VgiCbor.Tags

open Json Diagnostic MachineInt

/-- One tag occurrence: its number, where it is, and its content as JSON. -/
structure TagHit where
  tag : UInt64
  path : String
  valueJson : String
  deriving DecidableEq

variable (platform : Platform)

/-- The location of the value under a map key. -/
def segment (path : String) : Value → String
  | .text s => s!"{path}.{s}"
  | key =>
      let shown := diagnosticKey platform.fp key
      s!"{path}[{shown}]"

mutual

/-- The hits that are pushed for a value at a location, tags first, then what is inside.  Map
keys are not entered. -/
def walk : Value → String → List TagHit
  | .tag t inner, path =>
      -- The tagged value has the location of its tag.
      ⟨t, path, platform.jsonText (toJsonValue platform inner)⟩ :: walk inner path
  | .array items, path => walkItems 0 items path
  | .map entries, path => walkEntries entries path
  | _, _ => []

/-- The items of an array, from the given index on. -/
def walkItems : Nat → List Value → String → List TagHit
  | _, [], _ => []
  | i, v :: vs, path => walk v s!"{path}[{i}]" ++ walkItems (i + 1) vs path

/-- The values of a map. -/
def walkEntries : List (Value × Value) → String → List TagHit
  | [], _ => []
  | (k, v) :: es, path => walk v (segment platform path k) ++ walkEntries es path

end

def tags (codec : CborCodec) (bytes : Bytes) : Except DecodeError (List TagHit) :=
  (parseStrict codec bytes).map fun value => walk platform value "$"

mutual

/-- The contents that are pushed for the wanted tag.  The content of a hit is searched as
well, and map keys are not. -/
def collectTag (want : UInt64) : Value → List Json
  | .tag t inner =>
      (if t = want then [toJsonValue platform inner] else []) ++ collectTag want inner
  | .array items => collectTagItems want items
  | .map entries => collectTagEntries want entries
  | _ => []

/-- `items.iter().for_each(collect_tag)` -/
def collectTagItems (want : UInt64) : List Value → List Json
  | [] => []
  | v :: vs => collectTag want v ++ collectTagItems want vs

/-- The values of a map. -/
def collectTagEntries (want : UInt64) : List (Value × Value) → List Json
  | [] => []
  | (_, v) :: es => collectTag want v ++ collectTagEntries want es

end

/-- The JSON array of every value under a tag. -/
def untag (codec : CborCodec) (bytes : Bytes) (tag : UInt64) : Except DecodeError String :=
  (parseStrict codec bytes).map fun value =>
    platform.jsonText (.array (collectTag platform tag value))

/-! ## Nodes -/

abbrev Node := UInt64 × Value

mutual

/-- The tag nodes of a value in encoding order, with or without those inside map keys.  Both
walks of the source are compared with it. -/
def nodes (inKeys : Bool) : Value → List Node
  | .tag t inner => (t, inner) :: nodes inKeys inner
  | .array items => nodesItems inKeys items
  | .map entries => nodesEntries inKeys entries
  | _ => []

/-- Item by item. -/
def nodesItems (inKeys : Bool) : List Value → List Node
  | [] => []
  | v :: vs => nodes inKeys v ++ nodesItems inKeys vs

/-- Entry by entry, the key in front of the value. -/
def nodesEntries (inKeys : Bool) : List (Value × Value) → List Node
  | [] => []
  | (k, v) :: es =>
      (if inKeys then nodes inKeys k else []) ++ nodes inKeys v ++ nodesEntries inKeys es

end

theorem nodes_array (inKeys : Bool) (items : List Value) :
    nodes inKeys (.array items) = items.flatMap (nodes inKeys) := by
  rw [nodes]
  induction items with
  | nil => rfl
  | cons v vs ih => rw [nodesItems, ih, List.flatMap_cons]

theorem nodes_map (inKeys : Bool) (entries : List (Value × Value)) :
    nodes inKeys (.map entries) = entries.flatMap fun e =>
      (if inKeys then nodes inKeys e.1 else []) ++ nodes inKeys e.2 := by
  rw [nodes]
  induction entries with
  | nil => rfl
  | cons e es ih => rw [nodesEntries, ih, List.flatMap_cons]

/-- The nodes are the tags at any position of the value. -/
theorem mem_nodes_iff {v : Value} {t : UInt64} {inner : Value} :
    (t, inner) ∈ nodes true v ↔ Inside (.tag t inner) v := by
  have hflat {w : Value} (hnodes : nodes true w = []) (hinside : ∀ u, Inside u w → u = w)
      (hw : .tag t inner ≠ w) : (t, inner) ∈ nodes true w ↔ Inside (.tag t inner) w := by
    rw [hnodes]
    exact iff_of_false List.not_mem_nil fun h => hw (hinside _ h)
  induction v with
  | array items ih =>
      rw [nodes_array, List.mem_flatMap]
      constructor
      · rintro ⟨v, hv, hmem⟩
        exact .item hv ((ih v hv).1 hmem)
      · rintro (_ | ⟨hv, h⟩)
        exact ⟨_, hv, (ih _ hv).2 h⟩
  | map entries ih =>
      rw [nodes_map, List.mem_flatMap]
      constructor
      · rintro ⟨e, he, hmem⟩
        rcases List.mem_append.1 hmem with hmem | hmem
        · exact .key he ((ih e he).1.1 hmem)
        · exact .value he ((ih e he).2.1 hmem)
      · intro h
        cases h with
        | key he h => exact ⟨_, he, List.mem_append_left _ ((ih _ he).1.2 h)⟩
        | value he h => exact ⟨_, he, List.mem_append_right _ ((ih _ he).2.2 h)⟩
  | tag t' inner' ih =>
      have hinner : (t, inner) ∈ nodes true inner' ↔ Inside (.tag t inner) inner' := ih
      rw [nodes, List.mem_cons, hinner, Prod.mk.injEq]
      constructor
      · rintro (⟨rfl, rfl⟩ | h)
        · exact .self _
        · exact .tag t' h
      · intro h
        cases h with
        | self => exact .inl ⟨rfl, rfl⟩
        | tag _ h => exact .inr h
  | _ => exact hflat rfl (by rintro _ ⟨⟩; rfl) (by rintro ⟨⟩)

/-! ## The walks visit the same nodes -/

variable {platform : Platform}

/-- What a hit says about a node. -/
def report (platform : Platform) (node : Node) : UInt64 × String :=
  (node.1, platform.jsonText (toJsonValue platform node.2))

/-- The walk reports the nodes that are not inside map keys, in their order. -/
theorem walk_eq (v : Value) (path : String) :
    (walk platform v path).map (fun hit => (hit.tag, hit.valueJson)) =
      (nodes false v).map (report platform) := by
  induction v generalizing path with
  | array items ih =>
      rw [nodes_array, walk]
      generalize 0 = i
      induction items generalizing i with
      | nil => rfl
      | cons v vs ihItems =>
          rw [walkItems, List.map_append, List.flatMap_cons, List.map_append,
            ih v List.mem_cons_self, ihItems fun w hw => ih w (List.mem_cons_of_mem v hw)]
  | map entries ih =>
      rw [nodes_map, walk]
      induction entries with
      | nil => rfl
      | cons e es ihEntries =>
          rw [walkEntries, List.map_append, List.flatMap_cons, List.map_append,
            (ih e List.mem_cons_self).2, ihEntries fun f hf => ih f (List.mem_cons_of_mem e hf)]
          rfl
  | tag t inner ih =>
      rw [walk, nodes, List.map_cons, List.map_cons, ih path]
      rfl
  | _ => rfl

/-- The other walk collects the contents of those with the wanted tag. -/
theorem collectTag_eq (want : UInt64) (v : Value) :
    collectTag platform want v = ((nodes false v).filter fun node => node.1 = want).map
      fun node => toJsonValue platform node.2 := by
  induction v with
  | array items ih =>
      rw [nodes_array, collectTag]
      induction items with
      | nil => rfl
      | cons v vs ihItems =>
          rw [collectTagItems, List.flatMap_cons, List.filter_append, List.map_append,
            ih v List.mem_cons_self, ihItems fun w hw => ih w (List.mem_cons_of_mem v hw)]
  | map entries ih =>
      rw [nodes_map, collectTag]
      induction entries with
      | nil => rfl
      | cons e es ihEntries =>
          rw [collectTagEntries, List.flatMap_cons, List.filter_append, List.map_append,
            (ih e List.mem_cons_self).2, ihEntries fun f hf => ih f (List.mem_cons_of_mem e hf)]
          rfl
  | tag t inner ih =>
      rw [collectTag, nodes, ih, List.filter_cons]
      by_cases ht : t = want
      · rw [if_pos ht, if_pos (by simpa using ht), List.map_cons]
        rfl
      · rw [if_neg ht, if_neg (by simpa using ht)]
        rfl
  | _ => rfl

/-- The printer writes the texts of the items, separated by commas. -/
def PrintsCompactly (platform : Platform) : Prop :=
  ∀ items : List Json, platform.jsonText (.array items) =
    "[" ++ String.intercalate "," (items.map platform.jsonText) ++ "]"

/-- For a well-formed blob `untag` is the JSON array of the contents of those hits of `tags`
that have the tag. -/
theorem untag_eq_tags {codec : CborCodec} {blob : Bytes} {v : Value}
    (hparse : parseStrict codec blob = .ok v) (t : UInt64) :
    ∃ hits contents, tags platform codec blob = .ok hits ∧
      untag platform codec blob t = .ok (platform.jsonText (.array contents)) ∧
      contents.map platform.jsonText =
        (hits.filter fun hit => hit.tag = t).map TagHit.valueJson ∧
      (PrintsCompactly platform → untag platform codec blob t = .ok ("[" ++ String.intercalate ","
        ((hits.filter fun hit => hit.tag = t).map TagHit.valueJson) ++ "]")) := by
  have huntag : untag platform codec blob t =
      .ok (platform.jsonText (.array (collectTag platform t v))) := by
    rw [untag, hparse]
    rfl
  have hcontents : (collectTag platform t v).map platform.jsonText =
      ((walk platform v "$").filter fun hit => hit.tag = t).map TagHit.valueJson := by
    have hwalk := @walk_eq platform v "$"
    calc (collectTag platform t v).map platform.jsonText
        = (((nodes false v).map (report platform)).filter fun r => r.1 = t).map Prod.snd := by
          rw [collectTag_eq, List.filter_map, List.map_map, List.map_map]
          rfl
      _ = (((walk platform v "$").map fun hit => (hit.tag, hit.valueJson)).filter
            fun r => r.1 = t).map Prod.snd := by rw [hwalk]
      _ = ((walk platform v "$").filter fun hit => hit.tag = t).map TagHit.valueJson := by
          rw [List.filter_map, List.map_map]
          rfl
  refine ⟨walk platform v "$", _, by rw [tags, hparse]; rfl, huntag, hcontents, fun hprint => ?_⟩
  rw [huntag, hprint, hcontents]

/-- A tag directly inside another one of the same number. -/
def nestedTag : Value := .tag 1 (.tag 1 (.integer (Integer.ofI64 (I64.wrap 0))))

theorem parseStrict_nestedTag :
    parseStrict Definite.codec (Definite.encode nestedTag) = .ok nestedTag :=
  (Definite.codec_roundTrips.keeps _).parseStrict_encode rfl

theorem untag_eq_tags_nested :
    ∃ hits contents, tags .bare Definite.codec (Definite.encode nestedTag) = .ok hits ∧
      untag .bare Definite.codec (Definite.encode nestedTag) 1 =
        .ok (Platform.bare.jsonText (.array contents)) ∧
      contents.map Platform.bare.jsonText =
        (hits.filter fun hit => hit.tag = 1).map TagHit.valueJson := by
  obtain ⟨hits, contents, htags, huntag, heq, -⟩ :=
    @untag_eq_tags .bare _ _ _ parseStrict_nestedTag 1
  exact ⟨hits, contents, htags, huntag, heq⟩

/-! ## Map keys -/

/-- No key of the map contains a tag, at any depth of the key. -/
def UntaggedKeys (entries : List (Value × Value)) : Prop :=
  ∀ e ∈ entries, ∀ t inner, ¬ Inside (.tag t inner) e.1

theorem nodes_eq_nil_iff {v : Value} :
    nodes true v = [] ↔ ∀ t inner, ¬ Inside (.tag t inner) v := by
  rw [List.eq_nil_iff_forall_not_mem, Prod.forall]
  exact forall₂_congr fun t inner => not_congr mem_nodes_iff

/-- Where there is no tag at all there is none in a key. -/
theorem everyMap_of_no_tag {v : Value} (h : ∀ t inner, ¬ Inside (.tag t inner) v) :
    v.EveryMap UntaggedKeys := by
  induction v with
  | array items ih =>
      rw [Value.everyMap_array]
      exact fun v hv => ih v hv fun t inner hinside => h t inner (.item hv hinside)
  | map entries ih =>
      rw [Value.everyMap_map]
      refine ⟨fun e he t inner hinside => h t inner (.key he hinside), fun e he => ?_⟩
      exact ⟨(ih e he).1 fun t inner hinside => h t inner (.key he hinside),
        (ih e he).2 fun t inner hinside => h t inner (.value he hinside)⟩
  | tag t inner => exact absurd (.self _) (h t inner)
  | _ => trivial

theorem flatMap_sublist {α β : Type} {f g : α → List β} {l : List α}
    (h : ∀ a ∈ l, (f a).Sublist (g a)) : (l.flatMap f).Sublist (l.flatMap g) := by
  induction l with
  | nil => exact List.Sublist.refl _
  | cons a l ih =>
      obtain ⟨ha, hl⟩ := List.forall_mem_cons.1 h
      exact ha.append (ih hl)

/-- Parts that are in the whole are the whole exactly if each part is: no part can make up for
another. -/
theorem flatMap_eq_iff_of_sublist {α β : Type} {f g : α → List β} {l : List α}
    (h : ∀ a ∈ l, (f a).Sublist (g a)) : l.flatMap f = l.flatMap g ↔ ∀ a ∈ l, f a = g a := by
  induction l with
  | nil => simp
  | cons a l ih =>
      obtain ⟨ha, hl⟩ := List.forall_mem_cons.1 h
      rw [List.flatMap_cons, List.flatMap_cons, List.forall_mem_cons, ← ih hl]
      constructor
      · intro heq
        have hlen := congrArg List.length heq
        rw [List.length_append, List.length_append] at hlen
        have hfirst := ha.length_le
        have hrest := (flatMap_sublist hl).length_le
        exact ⟨ha.eq_of_length (by omega), (flatMap_sublist hl).eq_of_length (by omega)⟩
      · rintro ⟨hfirst, hrest⟩
        rw [hfirst, hrest]

theorem nodes_sublist (v : Value) : (nodes false v).Sublist (nodes true v) := by
  induction v with
  | array items ih =>
      rw [nodes_array, nodes_array]
      exact flatMap_sublist ih
  | map entries ih =>
      rw [nodes_map, nodes_map]
      exact flatMap_sublist fun e he => (List.nil_sublist _).append (ih e he).2
  | tag t inner ih => exact ih.cons_cons _
  | _ => exact List.Sublist.refl _

/-- All nodes are outside of keys exactly if no key has a tag. -/
theorem nodes_eq_iff {v : Value} :
    nodes false v = nodes true v ↔ v.EveryMap UntaggedKeys := by
  induction v with
  | array items ih =>
      rw [nodes_array, nodes_array, flatMap_eq_iff_of_sublist fun v _ => nodes_sublist v,
        Value.everyMap_array]
      exact forall₂_congr ih
  | map entries ih =>
      rw [nodes_map, nodes_map, Value.everyMap_map]
      refine (flatMap_eq_iff_of_sublist fun e _ =>
        (List.nil_sublist _).append (nodes_sublist e.2)).trans ?_
      constructor
      · intro h
        have hentry (e : Value × Value) (he : e ∈ entries) :
            nodes true e.1 = [] ∧ nodes false e.2 = nodes true e.2 := by
          have heq : [] ++ nodes false e.2 = nodes true e.1 ++ nodes true e.2 := h e he
          have hlen := congrArg List.length heq
          have hle := (nodes_sublist e.2).length_le
          rw [List.nil_append, List.length_append] at hlen
          exact ⟨List.length_eq_zero_iff.1 (by omega),
            (nodes_sublist e.2).eq_of_length (by omega)⟩
        refine ⟨fun e he => nodes_eq_nil_iff.1 (hentry e he).1, fun e he => ⟨?_, ?_⟩⟩
        · exact everyMap_of_no_tag (nodes_eq_nil_iff.1 (hentry e he).1)
        · exact (ih e he).2.1 (hentry e he).2
      · rintro ⟨huntagged, hparts⟩ e he
        show [] ++ nodes false e.2 = nodes true e.1 ++ nodes true e.2
        rw [nodes_eq_nil_iff.2 (huntagged e he), (ih e he).2.2 (hparts e he).2]
  | tag t inner ih =>
      rw [nodes, nodes, List.cons_inj_right, Value.EveryMap]
      exact ih
  | _ => exact iff_of_true rfl trivial

/-- `tags` has a hit for every tag in the value, in encoding order, exactly if no key of any
map in it contains a tag. -/
theorem tags_complete_iff {codec : CborCodec} {blob : Bytes} {v : Value}
    (hparse : parseStrict codec blob = .ok v) :
    ∃ hits, tags platform codec blob = .ok hits ∧
      (hits.map (fun hit => (hit.tag, hit.valueJson)) = (nodes true v).map (report platform) ↔
        v.EveryMap UntaggedKeys) := by
  refine ⟨walk platform v "$", by rw [tags, hparse]; rfl, ?_⟩
  rw [walk_eq, ← nodes_eq_iff]
  constructor
  · intro h
    have hlen := congrArg List.length h
    rw [List.length_map, List.length_map] at hlen
    exact (nodes_sublist v).eq_of_length hlen
  · exact fun h => congrArg _ h

/-- A map with untagged keys of several types, and tags in its values. -/
def taggedValues : Value :=
  .map [(.text "at", nestedTag), (.array [.null, .bool true], .array [.tag 5 .null]),
    (.map [(.null, .null)], .bool false)]

/-- All its tags are listed, in encoding order. -/
theorem tags_complete_iff_values :
    ∃ hits, tags .bare Definite.codec (Definite.encode taggedValues) = .ok hits ∧
      hits.map (fun hit => (hit.tag, hit.valueJson)) =
        (nodes true taggedValues).map (report .bare) ∧
      hits.map TagHit.tag = [1, 1, 5] := by
  have hread : parseStrict Definite.codec (Definite.encode taggedValues) = .ok taggedValues :=
    (Definite.codec_roundTrips.keeps _).parseStrict_encode rfl
  obtain ⟨hits, htags, hiff⟩ := @tags_complete_iff .bare _ _ _ hread
  have huntagged : taggedValues.EveryMap UntaggedKeys := by
    rw [← nodes_eq_iff]
    rfl
  have hall := hiff.2 huntagged
  refine ⟨hits, htags, hall, ?_⟩
  have hfirst := congrArg (List.map Prod.fst) hall
  rw [List.map_map] at hfirst
  exact hfirst

/-- A map whose key is tagged. -/
def taggedKey : Value := .map [(.tag 1 (.integer (Integer.ofI64 (I64.wrap 0))), .null)]

/-- The tag of a key is not listed. -/
theorem tags_misses_key :
    ∃ inner, Inside (.tag 1 inner) taggedKey ∧
      parseStrict Definite.codec (Definite.encode taggedKey) = .ok taggedKey ∧
      tags .bare Definite.codec (Definite.encode taggedKey) = .ok [] := by
  have hread : parseStrict Definite.codec (Definite.encode taggedKey) = .ok taggedKey :=
    (Definite.codec_roundTrips.keeps _).parseStrict_encode rfl
  refine ⟨_, .key List.mem_cons_self (.self _), hread, ?_⟩
  rw [tags, hread]
  rfl

end VgiCbor.Tags
