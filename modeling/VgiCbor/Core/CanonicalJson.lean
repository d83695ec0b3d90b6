import VgiCbor.Lib.SortedMap
import VgiCbor.Core.ConcreteCodecs
import VgiCbor.Core.Json
import VgiCbor.Core.Validate

/-!
# Canonicalizing and decoding

`canonicalize` permutes the entries of maps, and `to_json` inserts entries in order under
their stringified keys, so that of the entries whose keys render alike the last one is
shown.  A blob and its canonical form decode to the same JSON if in every map the last of
them in the blob and the last of them in canonical order have values that render alike
(`canonical_decodes_alike_iff`).
-/

namespace VgiCbor.Json

open KeySort LabelScan MachineInt SortedMap

variable {platform : Platform} {codec : CborCodec} {mode : Canon}

/-! ## The members of an object -/

theorem insert_eq_upsert (key : String) (value : Json) (members : List (String × Json)) :
    insert key value members = upsert key value members := by
  induction members with
  | nil => rfl
  | cons m rest ih => rw [insert, upsert, ih]

theorem toJsonMembers_eq_fill (entries : List (Value × Value)) (obj : List (String × Json)) :
    toJsonMembers platform entries obj =
      fill (fun e => jsonKey platform e.1) (fun e => toJsonValue platform e.2) entries obj := by
  induction entries generalizing obj with
  | nil => rw [toJsonMembers, fill, List.foldl_nil]
  | cons e entries ih =>
      obtain ⟨k, v⟩ := e
      rw [toJsonMembers, ih, insert_eq_upsert]
      rfl

/-! ## Maps whose keys collide -/

/-- The last entry whose key renders as `key`: the one that is shown, since inserting a member
replaces an earlier one. -/
abbrev shownAt (platform : Platform) (key : String) (entries : List (Value × Value)) :
    Option (Value × Value) :=
  lastOf (fun e => jsonKey platform e.1) key entries

/-- The entries in the order of their encoded canonical keys, with their own keys and values
still untouched. -/
def canonicalOrder (codec : CborCodec) (mode : Canon) (entries : List (Value × Value)) :
    List (Value × Value) :=
  sortBy (fun e => keyBytes codec (canonicalize codec mode e.1)) mode.compareKeys entries

/-- Of the entries whose keys render alike, the last one as they stand and the last one in
canonical order have values that render alike. -/
def CollisionsAgree (platform : Platform) (codec : CborCodec) (mode : Canon)
    (entries : List (Value × Value)) : Prop :=
  ∀ key e f, shownAt platform key entries = some e →
    shownAt platform key (canonicalOrder codec mode entries) = some f →
    toJsonValue platform e.2 = toJsonValue platform f.2

theorem canonicalOrder_perm (entries : List (Value × Value)) :
    (canonicalOrder codec mode entries).Perm entries := sortBy_perm _ _ _

/-- Reordering leaves the same keys to be shown; it can only change which entry is shown under
one of them. -/
theorem shownAt_eq_none_of_perm {key : String} {entries fs : List (Value × Value)}
    (h : entries.Perm fs) :
    shownAt platform key entries = none ↔ shownAt platform key fs = none := by
  rw [last?_eq_none_iff, last?_eq_none_iff]
  exact forall_congr' fun e => imp_congr_left h.mem_iff

/-- Collisions agree exactly if every key shows the same value in both orders.  This is how
the condition enters the comparison of the rendered objects. -/
theorem collisionsAgree_iff {entries : List (Value × Value)} :
    CollisionsAgree platform codec mode entries ↔
      ∀ key, (shownAt platform key entries).map (fun e => toJsonValue platform e.2) =
        (shownAt platform key (canonicalOrder codec mode entries)).map
          fun e => toJsonValue platform e.2 := by
  refine forall_congr' fun key => ?_
  have hnone := @shownAt_eq_none_of_perm platform key _ _
    (@canonicalOrder_perm codec mode entries)
  cases hfirst : shownAt platform key entries with
  | none =>
      rw [hnone.2 hfirst]
      simp
  | some e =>
      cases hsecond : shownAt platform key (canonicalOrder codec mode entries) with
      | none => rw [hnone.1 hsecond] at hfirst; cases hfirst
      | some f =>
          constructor
          · exact fun h => congrArg some (h e f rfl rfl)
          · rintro heq _ _ ⟨⟩ ⟨⟩
            exact Option.some.inj heq

/-- Where no two keys render alike there are no collisions, and the condition holds for free. -/
theorem collisionsAgree_of_nodup {entries : List (Value × Value)}
    (h : (entries.map fun e => jsonKey platform e.1).Nodup) :
    CollisionsAgree platform codec mode entries := by
  rw [collisionsAgree_iff]
  intro key
  have hunique : Unique (fun e => jsonKey platform e.1 = key) entries := by
    refine (List.pairwise_map.1 h).imp fun hne hboth => hne ?_
    simp only [decide_eq_true_eq] at hboth
    exact hboth.1.trans hboth.2.symm
  exact congrArg _ (last?_perm hunique (canonicalOrder_perm entries).symm).symm

/-! ## What canonicalizing keeps -/

/-- The value and its canonical form render alike. -/
def RendersAlike (platform : Platform) (codec : CborCodec) (mode : Canon) (v : Value) : Prop :=
  toJsonValue platform (canonicalize codec mode v) = toJsonValue platform v

theorem RendersAlike.eq {v : Value} (h : RendersAlike platform codec mode v) :
    toJsonValue platform (canonicalize codec mode v) = toJsonValue platform v := h

theorem jsonKey_canonicalize {k : Value} (h : RendersAlike platform codec mode k) :
    jsonKey platform (canonicalize codec mode k) = jsonKey platform k := by
  cases k with
  | array items =>
      simp only [RendersAlike, canonicalize, toJsonValue] at h
      simp only [canonicalize, jsonKey, h]
  | map entries =>
      simp only [RendersAlike, canonicalize, toJsonValue] at h
      simp only [canonicalize, jsonKey, h]
  | tag t inner =>
      simp only [RendersAlike, canonicalize, toJsonValue] at h
      simp only [canonicalize, jsonKey, h]
  | _ => rfl

theorem canonicalize_map (entries : List (Value × Value)) :
    canonicalize codec mode (.map entries) =
      .map ((canonicalOrder codec mode entries).map (canonicalizeEntry codec mode)) := by
  simp only [canonicalize, canonicalizeEntries_eq_map]
  rw [sortBy_map]
  rfl

/-- A map whose keys and values keep their rendering keeps its own exactly if its
collisions agree. -/
theorem rendersAlike_map_iff {entries : List (Value × Value)}
    (h : ∀ e ∈ entries, RendersAlike platform codec mode e.1 ∧
      RendersAlike platform codec mode e.2) :
    RendersAlike platform codec mode (.map entries) ↔
      CollisionsAgree platform codec mode entries := by
  have hmem {e : Value × Value} (he : e ∈ canonicalOrder codec mode entries) : e ∈ entries :=
    (canonicalOrder_perm entries).mem_iff.1 he
  have hfill : fill (fun e => jsonKey platform e.1) (fun e => toJsonValue platform e.2)
      ((canonicalOrder codec mode entries).map (canonicalizeEntry codec mode)) [] =
        fill (fun e => jsonKey platform e.1) (fun e => toJsonValue platform e.2)
          (canonicalOrder codec mode entries) [] := by
    unfold fill
    rw [List.foldl_map]
    apply List.foldl_ext
    intro members e he
    obtain ⟨hk, hv⟩ := h e (hmem he)
    simp only [canonicalizeEntry, jsonKey_canonicalize hk, hv.eq]
  rw [RendersAlike, canonicalize_map, toJsonValue, toJsonValue, toJsonMembers_eq_fill,
    toJsonMembers_eq_fill, hfill, Json.object.injEq, eq_comm, fill_eq_iff, collisionsAgree_iff]

/-- An item of a value, at any depth: the value itself, or an item inside an array, a tag,
or a key or value of a map. -/
inductive Inside : Value → Value → Prop
  | self (v) : Inside v v
  | item {u v items} (hv : v ∈ items) (h : Inside u v) : Inside u (.array items)
  | key {u e entries} (he : e ∈ entries) (h : Inside u e.1) : Inside u (.map entries)
  | value {u e entries} (he : e ∈ entries) (h : Inside u e.2) : Inside u (.map entries)
  | tag {u inner} (t) (h : Inside u inner) : Inside u (.tag t inner)

theorem Inside.depth_le {u v : Value} (h : Inside u v) : u.depth ≤ v.depth := by
  induction h with
  | self => exact le_rfl
  | item hv _ ih =>
      have hitem := Value.depthItems_le.1 le_rfl _ hv
      rw [Value.depth]
      omega
  | key he _ ih =>
      have hentry := Value.depthEntries_le.1 le_rfl _ he
      rw [Value.depth]
      omega
  | value he _ ih =>
      have hentry := Value.depthEntries_le.1 le_rfl _ he
      rw [Value.depth]
      omega
  | tag t _ ih =>
      rw [Value.depth]
      omega

/-- A value and everything inside it keep their rendering exactly if the collisions in all
maps agree. -/
theorem all_rendersAlike_iff {v : Value} :
    (∀ u, Inside u v → RendersAlike platform codec mode u) ↔
      v.EveryMap (CollisionsAgree platform codec mode) := by
  -- Nothing is inside a scalar, and it is its own normal form.
  have hflat {w : Value} (hcanon : canonicalize codec mode w = w)
      (hinside : ∀ u, Inside u w → u = w) :
      (∀ u, Inside u w → RendersAlike platform codec mode u) ↔ True := by
    refine iff_true_intro fun u hu => ?_
    rw [hinside u hu, RendersAlike, hcanon]
  induction v with
  | null => exact hflat rfl (by rintro _ ⟨⟩; rfl)
  | bool b => exact hflat rfl (by rintro _ ⟨⟩; rfl)
  | integer n => exact hflat rfl (by rintro _ ⟨⟩; rfl)
  | float f => exact hflat rfl (by rintro _ ⟨⟩; rfl)
  | text s => exact hflat rfl (by rintro _ ⟨⟩; rfl)
  | bytes b => exact hflat rfl (by rintro _ ⟨⟩; rfl)
  | array items ih =>
      rw [Value.everyMap_array]
      constructor
      · intro h v hv
        exact (ih v hv).1 fun u hu => h u (.item hv hu)
      · intro h u hu
        have hitems (v : Value) (hv : v ∈ items) := (ih v hv).2 (h v hv)
        cases hu with
        | item hv hu => exact hitems _ hv u hu
        | self =>
            simp only [RendersAlike, canonicalize, canonicalizeItems_eq_map, toJsonValue,
              toJsonItems_eq_map, List.map_map]
            congr 1
            exact List.map_congr_left fun v hv => hitems v hv v (.self v)
  | map entries ih =>
      rw [Value.everyMap_map]
      constructor
      · intro h
        refine ⟨?_, fun e he => ?_⟩
        · -- The rule for maps applies since keys and values keep their rendering.
          refine (rendersAlike_map_iff fun e he => ?_).1 (h _ (.self _))
          exact ⟨h _ (.key he (.self _)), h _ (.value he (.self _))⟩
        · exact ⟨(ih e he).1.1 fun u hu => h u (.key he hu),
            (ih e he).2.1 fun u hu => h u (.value he hu)⟩
      · rintro ⟨hagree, hparts⟩ u hu
        have hkeys (e : Value × Value) (he : e ∈ entries) := (ih e he).1.2 (hparts e he).1
        have hvalues (e : Value × Value) (he : e ∈ entries) := (ih e he).2.2 (hparts e he).2
        cases hu with
        | key he hu => exact hkeys _ he u hu
        | value he hu => exact hvalues _ he u hu
        | self =>
            refine (rendersAlike_map_iff fun e he => ?_).2 hagree
            exact ⟨hkeys e he _ (.self _), hvalues e he _ (.self _)⟩
  | tag t inner ih =>
      rw [Value.EveryMap]
      constructor
      · exact fun h => ih.1 fun u hu => h u (.tag t hu)
      · intro h u hu
        cases hu with
        | tag _ hu => exact ih.2 h u hu
        | self =>
            have hinner := ih.2 h inner (.self inner)
            simp only [RendersAlike, canonicalize, toJsonValue]
            exact hinner

/-! ## Blobs -/

/-- `canonical` of the blob succeeds, and decodes to the same JSON text. -/
def DecodesAlike (platform : Platform) (codec : CborCodec) (mode : Canon) (blob : Bytes) :
    Prop :=
  ∃ out, canonical codec blob mode = .ok out ∧
    toJsonString platform codec out = toJsonString platform codec blob

/-- The printer prints different values differently.  Only the converse direction needs it:
equal values print alike in any case. -/
def PrintsApart (platform : Platform) : Prop :=
  ∀ v w, platform.jsonText (toJsonValue platform v) = platform.jsonText (toJsonValue platform w) →
    toJsonValue platform v = toJsonValue platform w

/-- What is documented of the printer: the texts of `null` and of the flags, the quote that
opens the text of a string, and that different values are printed differently. -/
structure PrintsJson (platform : Platform) : Prop where
  null : platform.jsonText .null = "null"
  bool (b : Bool) : platform.jsonText (.bool b) = toString b
  string (s : String) : (platform.jsonText (.string s)).toList.head? = some '"'
  apart : PrintsApart platform

theorem decodesAlike_iff (hcodec : codec.RoundTrips) (hlimit : codec.Limited) {blob : Bytes}
    {v : Value} (hparse : parseStrict codec blob = .ok v) :
    DecodesAlike platform codec mode blob ↔
      platform.jsonText (toJsonValue platform (canonicalize codec mode v)) =
        platform.jsonText (toJsonValue platform v) := by
  obtain ⟨out, hout, hread⟩ := canonical_ok hlimit (hcodec.keeps _) hparse
  constructor
  · rintro ⟨out', hout', heq⟩
    obtain rfl : out = out' := Except.ok.inj (hout.symm.trans hout')
    simp only [toJsonString, hread, hparse] at heq
    exact Except.ok.inj heq
  · intro heq
    exact ⟨out, hout, by simp only [toJsonString, hread, hparse, heq]⟩

/-! ## A printer for concrete runs -/

theorem intToJson_round_trip (n : Integer) :
    toJsonValue platform (jsonToCbor (intToJson n.val)) = intToJson n.val := by
  cases hu : (Ranged.tryFrom _ _ n.val : Option U64) with
  | some u =>
      have hn : intToJson n.val = .number (.posInt u) := by simp only [intToJson, hu]
      have hval : u.val = n.val := Ranged.tryFrom_eq_some_iff.1 hu
      rw [hn, jsonToCbor, numberToCbor, toJsonValue, Integer.ofU64_val, hval, hn]
  | none =>
      cases hi : (Ranged.tryFrom _ _ n.val : Option I64) with
      | some i =>
          have hn : intToJson n.val = .number (.negInt i) := by simp only [intToJson, hu, hi]
          have hval : i.val = n.val := Ranged.tryFrom_eq_some_iff.1 hi
          rw [hn, jsonToCbor, numberToCbor, toJsonValue, Integer.ofI64_val, hval, hn]
      | none =>
          have hn : intToJson n.val = .string (toString n.val) := by
            simp only [intToJson, hu, hi]
          rw [hn, jsonToCbor, toJsonValue]

/-- An object that was filled from renderings survives `from_json` as they do. -/
theorem toJsonValue_jsonToCbor_fill {α : Type*} {key : α → String} {value : α → Json}
    {elements : List α}
    (h : ∀ a ∈ elements, toJsonValue platform (jsonToCbor (value a)) = value a) :
    toJsonValue platform (jsonToCbor (.object (fill key value elements []))) =
      .object (fill key value elements []) := by
  have hsorted : Sorted (fill key value elements []) := fill_sorted elements List.Pairwise.nil
  -- Every member is the rendering of some element.
  have hvalues : ∀ m ∈ fill key value elements [],
      toJsonValue platform (jsonToCbor m.2) = m.2 := by
    intro m hm
    rw [mem_fill_iff] at hm
    obtain ⟨a, ha, hvalue⟩ := Option.map_eq_some_iff.1 hm
    rw [← hvalue]
    exact h a (last?_some ha).1
  rw [jsonToCbor, toJsonValue, toJsonMembers_eq_fill, membersToCbor_eq_map, fill,
    List.foldl_map]
  congr 1
  refine Eq.trans (List.foldl_ext _ _ [] fun obj m hm => ?_) hsorted.fill_self
  rw [hvalues m hm]
  rfl

/-- Rendered JSON survives `from_json`: it is rendered again as it was, whatever CBOR value it
came from. -/
theorem toJsonValue_jsonToCbor (v : Value) :
    toJsonValue platform (jsonToCbor (toJsonValue platform v)) = toJsonValue platform v := by
  induction v with
  | null => rfl
  | bool b => rfl
  | integer n => exact intToJson_round_trip n
  | float f =>
      rw [toJsonValue, floatToJson]
      split_ifs with hfinite
      · rw [jsonToCbor, numberToCbor, toJsonValue, floatToJson, if_pos hfinite]
      · rfl
  | text s => rfl
  | bytes b => rfl
  | array items ih =>
      simp only [toJsonValue, jsonToCbor, toJsonItems_eq_map, itemsToCbor_eq_map, List.map_map]
      congr 1
      exact List.map_congr_left ih
  | map entries ih =>
      rw [toJsonValue, toJsonMembers_eq_fill]
      exact toJsonValue_jsonToCbor_fill fun e he => (ih e he).2
  | tag t inner ih =>
      rw [toJsonValue]
      exact ih

/-- The flag in an object whose only member is a flag under "null". -/
def flagOf : Json → Option Bool
  | .object [(key, .bool b)] => if key = "null" then some b else none
  | _ => none

theorem flagOf_eq_some_iff {j : Json} {b : Bool} :
    flagOf j = some b ↔ j = .object [("null", .bool b)] := by
  constructor
  · intro h
    unfold flagOf at h
    split at h
    · split_ifs at h with hkey
      cases h
      rw [hkey]
    · cases h
  · rintro rfl
    rfl

/-- Prints `null`, flags, strings without escapes and objects with a flag under "null" as
JSON, and the others apart. -/
def flagText (j : Json) : String :=
  match j with
  | .null => "null"
  | .bool b => toString b
  | .string s => String.ofList ('"' :: (s.toList ++ ['"']))
  | j =>
      match flagOf j with
      | some b => s!"\x7b\"null\":{b}\x7d"
      | none => String.ofList ('#' :: (Definite.encode (jsonToCbor j)).map UInt8.toChar)

/-- A platform whose printer has what is asked of one (`flagPlatform_printsJson`), with texts
that tell `null`, flags and strings apart as JSON does. -/
def flagPlatform : Platform := { Platform.bare with jsonText := flagText }

theorem toChar_injective : Function.Injective UInt8.toChar := by
  intro a b h
  exact UInt8.toUInt32_inj.1 (congrArg Char.val h)

theorem encode_injective : Function.Injective Definite.encode := by
  intro v w h
  exact Definite.codec_injective.encode_inj v w (Definite.encode v) rfl (congrArg Except.ok h.symm)

/-- What the printer prints, as a list of characters; the first one tells the cases apart. -/
inductive Printed : Json → List Char → Prop
  | null : Printed .null ['n', 'u', 'l', 'l']
  | yes : Printed (.bool true) ['t', 'r', 'u', 'e']
  | no : Printed (.bool false) ['f', 'a', 'l', 's', 'e']
  | string (s : String) : Printed (.string s) ('"' :: (s.toList ++ ['"']))
  | flag (b : Bool) : Printed (.object [("null", .bool b)])
      ('\x7b' :: ("\"null\":".toList ++ (toString b).toList ++ ['\x7d']))
  | other (j : Json) : Printed j ('#' :: (Definite.encode (jsonToCbor j)).map UInt8.toChar)

theorem printed_flagText (j : Json) : Printed j (flagText j).toList := by
  have hlast (j : Json) : Printed j (match flagOf j with
      | some b => s!"\x7b\"null\":{b}\x7d"
      | none => String.ofList ('#' :: (Definite.encode (jsonToCbor j)).map
          UInt8.toChar)).toList := by
    cases hflag : flagOf j with
    | some b =>
        rw [flagOf_eq_some_iff.1 hflag]
        cases b
        · exact .flag false
        · exact .flag true
    | none =>
        rw [String.toList_ofList]
        exact .other j
  cases j with
  | null => exact .null
  | bool b =>
      cases b
      · exact .no
      · exact .yes
  | string s =>
      rw [flagText, String.toList_ofList]
      exact .string s
  | number n => exact hlast (.number n)
  | array items => exact hlast (.array items)
  | object members => exact hlast (.object members)

theorem Printed.inj {i j : Json} {s t : List Char} (hi : Printed i s) (hj : Printed j t)
    (h : s = t) : jsonToCbor i = jsonToCbor j := by
  cases hi with
  | null => cases hj <;> first | rfl | cases h
  | yes => cases hj <;> first | rfl | cases h
  | no => cases hj <;> first | rfl | cases h
  | string s =>
      cases hj with
      | string t =>
          obtain rfl := String.toList_injective (List.append_cancel_right (List.cons.inj h).2)
          rfl
      | _ => cases h
  | flag b =>
      cases hj with
      | flag c =>
          cases b <;> cases c <;> first | rfl | cases h
      | _ => cases h
  | other i =>
      cases hj with
      | other j =>
          have hbytes := toChar_injective.list_map (List.cons.inj h).2
          exact encode_injective hbytes
      | _ => cases h

theorem flagPlatform_printsJson : PrintsJson flagPlatform where
  null := rfl
  bool b := rfl
  string s := by
    change (String.ofList _).toList.head? = _
    rw [String.toList_ofList]
    rfl
  apart v w h := by
    rw [← toJsonValue_jsonToCbor v, ← toJsonValue_jsonToCbor w]
    congr 1
    exact (printed_flagText _).inj (printed_flagText _) (congrArg String.toList h)

/-! ## Decoding before and after -/

/-- For a well-formed blob `canonical` succeeds, and what it returns decodes to the same JSON
if the collisions in all maps agree.  This is exact for the blob together with the blobs of
the items inside it. -/
theorem canonical_decodes_alike_iff (hcodec : codec.RoundTrips) (hlimit : codec.Limited)
    (hprint : PrintsApart platform) {blob : Bytes}
    (hok : (wellFormed codec blob).ok = true) :
    ∃ v, parseStrict codec blob = .ok v ∧ (∃ out, canonical codec blob mode = .ok out) ∧
      (v.EveryMap (CollisionsAgree platform codec mode) →
        DecodesAlike platform codec mode blob) ∧
      ((∀ u b, Inside u v → parseStrict codec b = .ok u →
          DecodesAlike platform codec mode b) ↔
        v.EveryMap (CollisionsAgree platform codec mode)) := by
  obtain ⟨v, hparse, -⟩ := wellFormed_ok_iff.1 hok
  obtain ⟨out, hout, -⟩ := canonical_ok hlimit (hcodec.keeps _) hparse
  have halike {u : Value} {b : Bytes} (hu : parseStrict codec b = .ok u) :
      DecodesAlike platform codec mode b ↔ RendersAlike platform codec mode u := by
    rw [decodesAlike_iff hcodec hlimit hu]
    exact ⟨hprint _ _, fun h => congrArg platform.jsonText h⟩
  refine ⟨v, hparse, ⟨out, hout⟩, fun hagree => ?_, ?_⟩
  · exact (halike hparse).2 (all_rendersAlike_iff.2 hagree v (.self v))
  · rw [← all_rendersAlike_iff]
    constructor
    · intro h u hu
      -- The item inside has a blob of its own.
      obtain ⟨b, hb⟩ := hcodec.encode_total u
      have hread : parseStrict codec b = .ok u := by
        rw [(hcodec.keeps _).parseStrict_encode hb,
          if_pos (hu.depth_le.trans (hlimit.parseStrict_depth hparse))]
      exact (halike hread).1 (h u b hu hread)
    · exact fun h u b hu hread => (halike hread).2 (h u hu)

/-- A map with two keys that render alike, in the order that `canonical` reverses, and with
values that render alike. -/
def doubled : Value := .map [(.null, .tag 0 (.bool true)), (.text "null", .bool true)]

theorem doubled_agrees : CollisionsAgree flagPlatform Definite.codec .core
    [(.null, .tag 0 (.bool true)), (.text "null", .bool true)] := by
  intro key e f he hf
  have hvalue : ∀ e ∈ [((.null, .tag 0 (.bool true)) : Value × Value), (.text "null", .bool true)],
      toJsonValue flagPlatform e.2 = .bool true := by
    simp [toJsonValue]
  rw [hvalue e (last?_some he).1,
    hvalue f ((canonicalOrder_perm _).mem_iff.1 (last?_some hf).1)]

theorem canonical_decodes_alike_doubled :
    toJsonString flagPlatform Definite.codec (Definite.encode doubled) =
        .ok "\x7b\"null\":true\x7d" ∧
      DecodesAlike flagPlatform Definite.codec .core (Definite.encode doubled) := by
  have hread : parseStrict Definite.codec (Definite.encode doubled) = .ok doubled :=
    (Definite.codec_roundTrips.keeps _).parseStrict_encode rfl
  have hok : (wellFormed Definite.codec (Definite.encode doubled)).ok = true :=
    wellFormed_ok_iff.2 ⟨doubled, hread, rfl⟩
  obtain ⟨v, hparse, -, halike, -⟩ := @canonical_decodes_alike_iff _ _ .core Definite.codec_roundTrips
    Definite.codec_limited flagPlatform_printsJson.apart _ hok
  obtain rfl : doubled = v := Except.ok.inj (hread.symm.trans hparse)
  refine ⟨?_, halike ?_⟩
  · rw [toJsonString, hread]
    rfl
  · simp only [doubled, Value.everyMap_map, List.forall_mem_cons, Value.EveryMap, and_true,
      List.not_mem_nil, false_implies, implies_true]
    exact doubled_agrees

/-- A map with two keys that render alike. -/
def collision : Value := .map [(.null, .bool true), (.text "null", .bool false)]

/-- The blob shows the value of the text key, and its canonical form the other one. -/
theorem collision_decodes_differently :
    (wellFormed Definite.codec (Definite.encode collision)).ok = true ∧
      toJsonString flagPlatform Definite.codec (Definite.encode collision) =
        .ok "\x7b\"null\":false\x7d" ∧
      ∃ out, canonical Definite.codec (Definite.encode collision) .core = .ok out ∧
        toJsonString flagPlatform Definite.codec out = .ok "\x7b\"null\":true\x7d" := by
  have hread : parseStrict Definite.codec (Definite.encode collision) = .ok collision :=
    (Definite.codec_roundTrips.keeps _).parseStrict_encode rfl
  obtain ⟨out, hout, hback⟩ := canonical_ok Definite.codec_limited
    (Definite.codec_roundTrips.keeps (canonicalize Definite.codec .core collision)) hread
  refine ⟨wellFormed_ok_iff.2 ⟨collision, hread, rfl⟩, ?_, out, hout, ?_⟩
  · rw [toJsonString, hread]
    rfl
  · rw [toJsonString, hback]
    rfl

end VgiCbor.Json
