import VgiCbor.Core.MsgpackShapes

/-!
# MessagePack rendered directly and through CBOR

An item can be rendered as JSON directly, or transcoded to CBOR and rendered then.  The
two differ on timestamps and bignums, which CBOR writes as tags, and on map keys of some
kinds, which they stringify differently (`KeyAlike`): binary data always, floats where they
are printed in two ways.  Elsewhere they are the same (`renderings_agree_iff`).
-/

namespace VgiCbor.Msgpack

open MachineInt Binary64 Json LabelScan SortedMap

variable {platform : Platform}

/-! ## Where the renderings agree -/

/-- Neither a bignum nor a payload that is read as a timestamp. -/
def IsPlainExt (ty : I8) (data : Bytes) : Prop :=
  ty ≠ BIGNUM_POS ∧ ty ≠ BIGNUM_NEG ∧
    (ty = TIMESTAMP_EXT → data.length ≠ 4 ∧ data.length ≠ 8 ∧ data.length ≠ 12)

/-- A float that is printed alike as a number of JSON and as a map key.  Integral floats are
not: JSON writes them with a decimal. -/
def FloatAlike (platform : Platform) (f : F64) : Prop :=
  platform.fp.display f = platform.jsonText (floatToJson f)

/-- A later entry takes the object key of this one in the direct rendering. -/
def Superseded (platform : Platform) (entries : List (Mp × Mp)) (e : Mp × Mp) : Prop :=
  lastOf (directKey platform) (directKey platform e) entries ≠ some e

/-- Both renderings show an entry under the object key, with values that come out alike.  The
entries may be different ones. -/
def MeetAt (platform : Platform) (entries : List (Mp × Mp)) (key : String) : Prop :=
  ∃ e f, lastOf (cborKey platform) key entries = some e ∧
    lastOf (directKey platform) key entries = some f ∧ ShownAlike platform e.2 f.2

/-- The object key of the entry is by coincidence the one that another entry has in the other
rendering, where at least one of the two entries has two object keys; and both renderings
show the same under all of them. -/
def Coincides (platform : Platform) (entries : List (Mp × Mp)) (e : Mp × Mp) : Prop :=
  (∃ f ∈ entries, cborKey platform f = directKey platform e ∧
    (cborKey platform e ≠ directKey platform e ∨ cborKey platform f ≠ directKey platform f)) ∧
  MeetAt platform entries (cborKey platform e) ∧ MeetAt platform entries (directKey platform e)

mutual

/-- The map keys that both renderings stringify alike: strings, integers, flags and nil;
floats that are printed alike; arrays, maps and `ext` items that come out alike.  Binary data
never is: it is quoted in the one rendering and bare in the other. -/
inductive KeyAlike (platform : Platform) : Mp → Prop
  | nil : KeyAlike platform .nil
  | boolean (b : Bool) : KeyAlike platform (.boolean b)
  | integer (n : MpInteger) : KeyAlike platform (.integer n)
  | string (s : Utf8String) : KeyAlike platform (.string s)
  | f32 {f : F32} (h : FloatAlike platform (platform.fp.widen f)) : KeyAlike platform (.f32 f)
  | f64 {f : F64} (h : FloatAlike platform f) : KeyAlike platform (.f64 f)
  | array {items : List Mp} (h : Agrees platform (.array items)) :
      KeyAlike platform (.array items)
  | map {entries : List (Mp × Mp)} (h : Agrees platform (.map entries)) :
      KeyAlike platform (.map entries)
  | ext {ty : I8} {data : Bytes} (h : IsPlainExt ty data) : KeyAlike platform (.ext ty data)

/-- The condition on an entry of a map: its key is stringified alike, and its value meets the
condition or is not shown.  Other keys are admitted by a coincidence only. -/
inductive EntryAgrees (platform : Platform) : List (Mp × Mp) → Mp × Mp → Prop
  | shown {entries : List (Mp × Mp)} {e : Mp × Mp} (hkey : KeyAlike platform e.1)
      (hvalue : Agrees platform e.2) : EntryAgrees platform entries e
  | superseded {entries : List (Mp × Mp)} {e : Mp × Mp} (hkey : KeyAlike platform e.1)
      (h : Superseded platform entries e) : EntryAgrees platform entries e
  | coincides {entries : List (Mp × Mp)} {e : Mp × Mp} (h : Coincides platform entries e) :
      EntryAgrees platform entries e

/-- The condition on an item. -/
inductive Agrees (platform : Platform) : Mp → Prop
  | scalar {m : Mp} (h : isScalar m = true) : Agrees platform m
  | array {items : List Mp} (h : ∀ v ∈ items, Agrees platform v) : Agrees platform (.array items)
  | map {entries : List (Mp × Mp)} (h : ∀ e ∈ entries, EntryAgrees platform entries e) :
      Agrees platform (.map entries)
  | ext {ty : I8} {data : Bytes} (h : IsPlainExt ty data) : Agrees platform (.ext ty data)

end

/-- Entries whose object keys coincide have keys that are stringified alike: no object key
belongs to one entry in one rendering and to another entry in the other. -/
def KeysUncrossed (platform : Platform) (entries : List (Mp × Mp)) : Prop :=
  ∀ e ∈ entries, ∀ f ∈ entries, cborKey platform f = directKey platform e →
    KeyAlike platform e.1 ∧ KeyAlike platform f.1

/-! ## Items -/

theorem decodeTimestamp_eq_none_iff {data : Bytes} :
    decodeTimestamp data = none ↔ data.length ≠ 4 ∧ data.length ≠ 8 ∧ data.length ≠ 12 := by
  unfold decodeTimestamp
  split <;> simp_all

/-- A code that is not reserved is shown with its number and its bytes by both. -/
theorem throughCbor_ext_of_opaque {ty : I8} {data : Bytes} (hpos : ty ≠ BIGNUM_POS)
    (hneg : ty ≠ BIGNUM_NEG) (htime : ty = TIMESTAMP_EXT → decodeTimestamp data = none) :
    throughCbor platform (.ext ty data) = mpToJson platform (.ext ty data) := by
  have hcbor : extToCbor ty data =
      .map [(.text "ext_type", .integer ty.widen), (.text "data", .bytes data)] := by
    by_cases heq : ty = TIMESTAMP_EXT
    · simp only [extToCbor, if_neg hpos, if_neg hneg, if_pos heq, htime heq]
    · simp only [extToCbor, if_neg hpos, if_neg hneg, if_neg heq]
  have hjson : extToJson ty data = .object (insert "data" (.string (b64url data))
      (insert "ext_type" (intToJson ty.val) [])) := by
    by_cases heq : ty = TIMESTAMP_EXT
    · simp only [extToJson, if_pos heq, htime heq]
    · simp only [extToJson, if_neg heq]
  rw [throughCbor_ext, hcbor, mpToJson, hjson]
  simp only [toJsonValue, toJsonMembers, jsonKey, Ranged.widen_val]

/-- A timestamp is an object directly, a number or an array through CBOR, so the renderings
always differ. -/
theorem throughCbor_timestamp {data : Bytes} {secs : I64} {nanos : U32}
    (h : decodeTimestamp data = some (secs, nanos)) :
    throughCbor platform (.ext TIMESTAMP_EXT data) ≠
      mpToJson platform (.ext TIMESTAMP_EXT data) := by
  rw [throughCbor_ext, mpToJson]
  simp only [extToCbor, extToJson, if_true, h, instantToCbor, toJsonValue]
  split_ifs with hwhole
  · simp only [toJsonValue, intToJson]
    split
    · exact Json.noConfusion
    · split <;> exact Json.noConfusion
  · simp only [toJsonValue]
    exact Json.noConfusion

/-- A bignum is an object directly, a text through CBOR. -/
theorem throughCbor_bignum {ty : I8} (h : ty = BIGNUM_POS ∨ ty = BIGNUM_NEG) (data : Bytes) :
    throughCbor platform (.ext ty data) ≠ mpToJson platform (.ext ty data) := by
  rw [throughCbor_ext, mpToJson]
  rcases h with rfl | rfl
  · exact Json.noConfusion
  · exact Json.noConfusion

/-- An `ext` item comes out alike exactly if it is plain. -/
theorem throughCbor_ext_iff {ty : I8} {data : Bytes} :
    throughCbor platform (.ext ty data) = mpToJson platform (.ext ty data) ↔
      IsPlainExt ty data := by
  constructor
  · intro heq
    refine ⟨fun hpos => ?_, fun hneg => ?_, fun htime => ?_⟩
    · exact throughCbor_bignum (.inl hpos) data heq
    · exact throughCbor_bignum (.inr hneg) data heq
    · rw [← decodeTimestamp_eq_none_iff]
      subst htime
      cases hdecode : decodeTimestamp data with
      | none => rfl
      | some parts => exact absurd heq (throughCbor_timestamp hdecode)
  · rintro ⟨hpos, hneg, htime⟩
    exact throughCbor_ext_of_opaque hpos hneg fun h => decodeTimestamp_eq_none_iff.2 (htime h)

/-- An array comes out alike exactly if its items do. -/
theorem throughCbor_array_iff {items : List Mp} :
    throughCbor platform (.array items) = mpToJson platform (.array items) ↔
      ∀ v ∈ items, throughCbor platform v = mpToJson platform v := by
  rw [throughCbor_array, mpToJson, mpToJsonItems_eq_map, Json.array.injEq, List.map_inj_left]

/-! ## Keys -/

/-- What is rendered directly is a rendering of CBOR too. -/
theorem toJsonValue_jsonToCbor_mpToJson (m : Mp) :
    toJsonValue platform (jsonToCbor (mpToJson platform m)) = mpToJson platform m := by
  have hscalar {m : Mp} (h : isScalar m = true) :
      toJsonValue platform (jsonToCbor (mpToJson platform m)) = mpToJson platform m := by
    rw [← throughCbor_scalar h, throughCbor, toJsonValue_jsonToCbor]
  have hmap {entries : List (Mp × Mp)} (h : ∀ e ∈ entries,
      toJsonValue platform (jsonToCbor (mpToJson platform e.2)) = mpToJson platform e.2) :
      toJsonValue platform (jsonToCbor (mpToJson platform (.map entries))) =
        mpToJson platform (.map entries) := by
    rw [mpToJson, mpToJsonMembers_eq_fill]
    exact toJsonValue_jsonToCbor_fill h
  induction m with
  | array items ih =>
      simp only [mpToJson, jsonToCbor, toJsonValue, mpToJsonItems_eq_map, Json.itemsToCbor_eq_map,
        toJsonItems_eq_map, List.map_map]
      congr 1
      exact List.map_congr_left ih
  | map entries ih => exact hmap fun e he => (ih e he).2
  | ext ty data =>
      have hopaque : toJsonValue platform (jsonToCbor (mpToJson platform (opaqueShape ty data))) =
          mpToJson platform (opaqueShape ty data) := by
        refine hmap fun e he => hscalar ?_
        fin_cases he <;> rfl
      rw [← mpToJson_directShape, directShape]
      split_ifs
      · cases decodeTimestamp data with
        | some parts => exact hmap fun e he => hscalar (by rw [List.mem_singleton.1 he]; rfl)
        | none => exact hopaque
      · exact hopaque
  | _ => exact hscalar rfl

/-- The texts of an item through CBOR and of an item directly are the same exactly if the
renderings are. -/
theorem jsonText_eq_iff (hprint : PrintsJson platform) {m n : Mp} :
    platform.jsonText (throughCbor platform m) = platform.jsonText (mpToJson platform n) ↔
      throughCbor platform m = mpToJson platform n := by
  constructor
  · intro h
    rw [← toJsonValue_jsonToCbor_mpToJson n] at h ⊢
    exact hprint.apart _ _ h
  · exact congrArg platform.jsonText

/-- Arrays, maps and `ext` items are keys as the texts of their renderings. -/
theorem key_of_nested {k : Mp} (h : isScalar k = false) :
    jsonKey platform (mpToCbor platform.fp k) = platform.jsonText (throughCbor platform k) ∧
      mpKey platform k = platform.jsonText (mpToJson platform k) := by
  cases k with
  | array items =>
      exact ⟨by rw [throughCbor, mpToCbor, jsonKey, toJsonValue], by rw [mpKey, mpToJson]⟩
  | map entries =>
      exact ⟨by rw [throughCbor, mpToCbor, jsonKey, toJsonValue], by rw [mpKey, mpToJson]⟩
  | ext ty data =>
      refine ⟨?_, by rw [mpKey, mpToJson]⟩
      have htag (t : UInt64) (v : Value) : jsonKey platform (.tag t v) =
          platform.jsonText (toJsonValue platform (.tag t v)) := by
        rw [jsonKey, toJsonValue]
      have hopaque (entries : List (Value × Value)) : jsonKey platform (.map entries) =
          platform.jsonText (toJsonValue platform (.map entries)) := by
        rw [jsonKey, toJsonValue]
      rw [throughCbor_ext, mpToCbor, extToCbor]
      by_cases hpos : ty = BIGNUM_POS
      · subst hpos
        exact htag 2 _
      · by_cases hneg : ty = BIGNUM_NEG
        · subst hneg
          exact htag 3 _
        · simp only [if_neg hpos, if_neg hneg]
          split_ifs
          · cases decodeTimestamp data with
            | some parts => exact htag 1 _
            | none => exact hopaque _
          · exact hopaque _
  | _ => cases h

/-- A digit of base64url is no quote. -/
theorem b64Digits_head_ne (bytes : Bytes) : (b64Digits bytes).head? ≠ some '"' := by
  have hdigit (n : Nat) : b64Digit n ≠ '"' := by
    have hmem : b64Digit n ∈
        "ABCDEFGHIJKLMNOPQRSTUVWXYZabcdefghijklmnopqrstuvwxyz0123456789-_".toList := by
      have hlt : n % 64 < "ABCDEFGHIJKLMNOPQRSTUVWXYZabcdefghijklmnopqrstuvwxyz0123456789-_".toList.length :=
        (Nat.mod_lt n (by decide)).trans_eq (by decide)
      rw [b64Digit, List.getD_eq_getElem _ _ hlt]
      exact List.getElem_mem _
    intro heq
    rw [heq] at hmem
    revert hmem
    decide
  match bytes with
  | [] => exact Option.some_ne_none _ |>.symm
  | [a] => exact fun h => hdigit _ (Option.some.inj h)
  | [a, b] => exact fun h => hdigit _ (Option.some.inj h)
  | a :: b :: c :: rest =>
      rw [b64Digits]
      exact fun h => hdigit _ (Option.some.inj h)

/-- The two object keys of a map key are the same exactly for the keys of the condition.  This
part needs the printer. -/
theorem key_eq_iff (hprint : PrintsJson platform) {k : Mp}
    (hk : throughCbor platform k = mpToJson platform k ↔ Agrees platform k) :
    jsonKey platform (mpToCbor platform.fp k) = mpKey platform k ↔ KeyAlike platform k := by
  cases k with
  | nil =>
      rw [mpToCbor, jsonKey, mpKey, hprint.null]
      exact iff_of_true rfl .nil
  | boolean b =>
      rw [mpToCbor, jsonKey, mpKey, hprint.bool]
      exact iff_of_true rfl (.boolean b)
  | integer n =>
      rw [mpToCbor, jsonKey, mpKey, Ranged.widen_val]
      exact iff_of_true rfl (.integer n)
  | string s => cases s <;> exact iff_of_true rfl (.string _)
  | f32 f =>
      rw [mpToCbor, jsonKey, mpKey]
      exact ⟨.f32, fun h => by cases h with | f32 h => exact h⟩
  | f64 f =>
      rw [mpToCbor, jsonKey, mpKey]
      exact ⟨.f64, fun h => by cases h with | f64 h => exact h⟩
  | binary b =>
      rw [mpToCbor, jsonKey, mpKey]
      refine iff_of_false (fun h => ?_) (fun h => by cases h)
      -- Bare on the one side, quoted on the other.
      have hquote := hprint.string (b64url b)
      rw [← h, b64url, String.toList_ofList] at hquote
      exact b64Digits_head_ne b hquote
  | array items =>
      rw [(key_of_nested rfl).1, (key_of_nested rfl).2, jsonText_eq_iff hprint, hk]
      exact ⟨.array, fun h => by cases h with | array h => exact h⟩
  | map entries =>
      rw [(key_of_nested rfl).1, (key_of_nested rfl).2, jsonText_eq_iff hprint, hk]
      exact ⟨.map, fun h => by cases h with | map h => exact h⟩
  | ext ty data =>
      rw [(key_of_nested rfl).1, (key_of_nested rfl).2, jsonText_eq_iff hprint,
        throughCbor_ext_iff]
      exact ⟨.ext, fun h => by cases h with | ext h => exact h⟩

/-! ## Maps -/

/-- A map comes out alike exactly if the renderings meet at all object keys. -/
theorem throughCbor_map_iff_meetAt {entries : List (Mp × Mp)} :
    throughCbor platform (.map entries) = mpToJson platform (.map entries) ↔
      ∀ e ∈ entries, MeetAt platform entries (cborKey platform e) ∧
        MeetAt platform entries (directKey platform e) := by
  have hfound {key : Mp × Mp → String} {e : Mp × Mp} (he : e ∈ entries) :
      ∃ f, lastOf key (key e) entries = some f := by
    refine Option.ne_none_iff_exists'.1 fun hnone => ?_
    simpa using last?_eq_none_iff.1 hnone e he
  have hkey {key : Mp × Mp → String} {k : String} {e : Mp × Mp}
      (h : lastOf key k entries = some e) : e ∈ entries ∧ key e = k := by
    simpa using last?_some h
  rw [throughCbor_map_iff]
  constructor
  · rintro ⟨hkeys, hvalues⟩ e he
    have hmeet {k : String} (h : (∃ f, lastOf (cborKey platform) k entries = some f) ∨
        ∃ f, lastOf (directKey platform) k entries = some f) : MeetAt platform entries k := by
      cases hcbor : lastOf (cborKey platform) k entries with
      | none =>
          rw [hcbor, (hkeys k).1 hcbor] at h
          simp at h
      | some f =>
          cases hdirect : lastOf (directKey platform) k entries with
          | none =>
              rw [(hkeys k).2 hdirect] at hcbor
              cases hcbor
          | some g => exact ⟨f, g, hcbor, hdirect, (shownAlike_iff _ _).2 (hvalues k f g hcbor hdirect)⟩
    exact ⟨hmeet (.inl (hfound he)), hmeet (.inr (hfound he))⟩
  · intro h
    refine ⟨fun k => ⟨fun hnone => ?_, fun hnone => ?_⟩, fun k e f he hf => ?_⟩
    · by_contra hne
      obtain ⟨e, he⟩ := Option.ne_none_iff_exists'.1 hne
      obtain ⟨hmem, rfl⟩ := hkey he
      obtain ⟨f, -, hf, -⟩ := (h e hmem).2
      rw [hnone] at hf
      cases hf
    · by_contra hne
      obtain ⟨e, he⟩ := Option.ne_none_iff_exists'.1 hne
      obtain ⟨hmem, rfl⟩ := hkey he
      obtain ⟨-, f, -, hf, -⟩ := (h e hmem).1
      rw [hnone] at hf
      cases hf
    · obtain ⟨hmem, rfl⟩ := hkey he
      obtain ⟨e', f', he', hf', halike⟩ := (h e hmem).1
      obtain rfl : e = e' := Option.some.inj (he.symm.trans he')
      obtain rfl : f = f' := Option.some.inj (hf.symm.trans hf')
      exact (shownAlike_iff _ _).1 halike

theorem entryAgrees_iff {entries : List (Mp × Mp)} {e : Mp × Mp} :
    EntryAgrees platform entries e ↔
      (KeyAlike platform e.1 ∧ (Superseded platform entries e ∨ Agrees platform e.2)) ∨
        Coincides platform entries e := by
  constructor
  · intro h
    cases h with
    | shown hkey hvalue => exact .inl ⟨hkey, .inr hvalue⟩
    | superseded hkey h => exact .inl ⟨hkey, .inl h⟩
    | coincides h => exact .inr h
  · rintro (⟨hkey, h | hvalue⟩ | h)
    · exact .superseded hkey h
    · exact .shown hkey hvalue
    · exact .coincides h

/-- The last entry with an object key, among entries of which one has it. -/
theorem lastOf_found {key : Mp × Mp → String} {k : String} {entries : List (Mp × Mp)}
    {e : Mp × Mp} (he : e ∈ entries) (hk : key e = k) : ∃ f, lastOf key k entries = some f := by
  refine Option.ne_none_iff_exists'.1 fun hnone => ?_
  simpa [hk] using last?_eq_none_iff.1 hnone e he

theorem lastOf_some {key : Mp × Mp → String} {k : String} {entries : List (Mp × Mp)}
    {e : Mp × Mp} (h : lastOf key k entries = some e) : e ∈ entries ∧ key e = k := by
  simpa using last?_some h

/-- For the keys and values of a map the condition is exact. -/
def ExactBelow (platform : Platform) (entries : List (Mp × Mp)) : Prop :=
  ∀ e ∈ entries, (throughCbor platform e.1 = mpToJson platform e.1 ↔ Agrees platform e.1) ∧
    (throughCbor platform e.2 = mpToJson platform e.2 ↔ Agrees platform e.2)

/-- Where every entry meets the condition, the renderings meet at all object keys. -/
theorem meetAt_of_entryAgrees (hprint : PrintsJson platform) {entries : List (Mp × Mp)}
    (ih : ExactBelow platform entries) (h : ∀ e ∈ entries, EntryAgrees platform entries e) :
    ∀ e ∈ entries, MeetAt platform entries (cborKey platform e) ∧
      MeetAt platform entries (directKey platform e) := by
  -- The key of an entry that does not coincide has one text.
  have hplain {e : Mp × Mp} (he : e ∈ entries) (hkey : KeyAlike platform e.1) :
      cborKey platform e = directKey platform e := (key_eq_iff hprint (ih e he).1).2 hkey
  have hcbor {k : String} {e : Mp × Mp} (he : lastOf (cborKey platform) k entries = some e) :
      MeetAt platform entries k := by
    obtain ⟨hmem, rfl⟩ := lastOf_some he
    rcases entryAgrees_iff.1 (h e hmem) with ⟨hkey, hvalue⟩ | hcoincides
    · obtain ⟨f, hf⟩ := lastOf_found hmem (hplain hmem hkey).symm
      obtain ⟨hmem', hk⟩ := lastOf_some hf
      rcases entryAgrees_iff.1 (h f hmem') with ⟨hkey', -⟩ | hcoincides
      · -- Both entries have the key in both renderings, so they are one.
        obtain rfl : e = f := by
          refine last?_eq_of_both he hf ?_ ?_
          · simpa using (hplain hmem hkey).symm
          · simpa using (hplain hmem' hkey').trans hk
        rcases hvalue with hsuperseded | hagrees
        · rw [hplain hmem hkey] at hf
          exact (hsuperseded hf).elim
        · exact ⟨e, e, he, hf, (shownAlike_iff _ _).2 ((ih e hmem).2.2 hagrees)⟩
      · exact hk ▸ hcoincides.2.2
    · exact hcoincides.2.1
  have hdirect {k : String} {f : Mp × Mp} (hf : lastOf (directKey platform) k entries = some f) :
      MeetAt platform entries k := by
    obtain ⟨hmem, rfl⟩ := lastOf_some hf
    rcases entryAgrees_iff.1 (h f hmem) with ⟨hkey, -⟩ | hcoincides
    · obtain ⟨e, he⟩ := lastOf_found hmem (hplain hmem hkey)
      exact hcbor he
    · exact hcoincides.2.2
  intro e he
  obtain ⟨f, hf⟩ := lastOf_found he (@rfl _ (cborKey platform e))
  obtain ⟨g, hg⟩ := lastOf_found he (@rfl _ (directKey platform e))
  exact ⟨hcbor hf, hdirect hg⟩

/-- Where the renderings meet at all object keys, every entry meets the condition: its keys
are alike, or another entry has them by coincidence. -/
theorem entryAgrees_of_meetAt (hprint : PrintsJson platform) {entries : List (Mp × Mp)}
    (ih : ExactBelow platform entries)
    (h : ∀ e ∈ entries, MeetAt platform entries (cborKey platform e) ∧
      MeetAt platform entries (directKey platform e)) :
    ∀ e ∈ entries, EntryAgrees platform entries e := by
  intro e he
  rw [entryAgrees_iff]
  obtain ⟨f, g, hf, hg, halike⟩ := (h e he).2
  obtain ⟨hmem, hk⟩ := lastOf_some hf
  by_cases hodd : cborKey platform e = directKey platform e
  · by_cases hshown : lastOf (directKey platform) (directKey platform e) entries = some e
    · obtain rfl : g = e := Option.some.inj (hg.symm.trans hshown)
      by_cases hsame : directKey platform f = directKey platform g
      · -- The entry is the last one in both renderings.
        obtain rfl : f = g := by
          refine last?_eq_of_both hf hg ?_ ?_
          · simpa using hsame
          · simpa using hodd
        exact .inl ⟨(key_eq_iff hprint (ih f hmem).1).1 hodd,
          .inr ((ih f hmem).2.1 ((shownAlike_iff _ _).1 halike))⟩
      · exact .inr ⟨⟨f, hmem, hk, .inr fun heq => hsame (heq.symm.trans hk)⟩, h g he⟩
    · exact .inl ⟨(key_eq_iff hprint (ih e he).1).1 hodd, .inl hshown⟩
  · exact .inr ⟨⟨f, hmem, hk, .inl hodd⟩, h e he⟩

theorem throughCbor_map_iff_entryAgrees (hprint : PrintsJson platform) {entries : List (Mp × Mp)}
    (ih : ExactBelow platform entries) :
    throughCbor platform (.map entries) = mpToJson platform (.map entries) ↔
      ∀ e ∈ entries, EntryAgrees platform entries e := by
  rw [throughCbor_map_iff_meetAt]
  exact ⟨entryAgrees_of_meetAt hprint ih, meetAt_of_entryAgrees hprint ih⟩

/-! ## The condition is exact -/

/-- The rendering through CBOR is the direct one exactly under the condition. -/
theorem throughCbor_eq_iff (hprint : PrintsJson platform) (m : Mp) :
    throughCbor platform m = mpToJson platform m ↔ Agrees platform m := by
  induction m with
  | array items ih =>
      rw [throughCbor_array_iff]
      constructor
      · exact fun h => .array fun v hv => (ih v hv).1 (h v hv)
      · intro h
        cases h with
        | scalar h => cases h
        | array h => exact fun v hv => (ih v hv).2 (h v hv)
  | map entries ih =>
      rw [throughCbor_map_iff_entryAgrees hprint ih]
      constructor
      · exact .map
      · intro h
        cases h with
        | scalar h => cases h
        | map h => exact h
  | ext ty data =>
      rw [throughCbor_ext_iff]
      constructor
      · exact .ext
      · intro h
        cases h with
        | scalar h => cases h
        | ext h => exact h
  | _ => exact iff_of_true (throughCbor_scalar rfl) (.scalar rfl)

/-- Where the keys are uncrossed, all of them have to be stringified alike. -/
theorem throughCbor_map_iff_of_uncrossed (hprint : PrintsJson platform)
    {entries : List (Mp × Mp)} (h : KeysUncrossed platform entries) :
    throughCbor platform (.map entries) = mpToJson platform (.map entries) ↔
      ∀ e ∈ entries, KeyAlike platform e.1 ∧
        (Superseded platform entries e ∨ Agrees platform e.2) := by
  have hbelow : ExactBelow platform entries := fun e _ =>
    ⟨throughCbor_eq_iff hprint e.1, throughCbor_eq_iff hprint e.2⟩
  rw [throughCbor_map_iff_entryAgrees hprint hbelow]
  refine forall₂_congr fun e he => ?_
  rw [entryAgrees_iff]
  refine or_iff_left ?_
  rintro ⟨⟨f, hf, hk, hodd⟩, -⟩
  obtain ⟨hkey, hkey'⟩ := h e he f hf hk
  rcases hodd with hodd | hodd
  · exact hodd ((key_eq_iff hprint (throughCbor_eq_iff hprint e.1)).2 hkey)
  · exact hodd ((key_eq_iff hprint (throughCbor_eq_iff hprint f.1)).2 hkey')

/-- Transcoding to CBOR and rendering gives the direct rendering if and only if no timestamp
and no bignum is among the shown values and all map keys are of the kinds that the two
renderings stringify alike, or coincide with others that hide the difference.  The kinds of
keys are exact too, and without coincidences all keys of a map have to be of them. -/
theorem renderings_agree_iff (hprint : PrintsJson platform) :
    (∀ m, toJsonValue platform (mpToCbor platform.fp m) = mpToJson platform m ↔
      Agrees platform m) ∧
    (∀ k, jsonKey platform (mpToCbor platform.fp k) = mpKey platform k ↔
      KeyAlike platform k) ∧
    ∀ entries, KeysUncrossed platform entries →
      (toJsonValue platform (mpToCbor platform.fp (.map entries)) =
          mpToJson platform (.map entries) ↔
        ∀ e ∈ entries, KeyAlike platform e.1 ∧
          (Superseded platform entries e ∨ Agrees platform e.2)) := by
  refine ⟨throughCbor_eq_iff hprint, fun k => ?_, fun entries => ?_⟩
  · exact key_eq_iff hprint (throughCbor_eq_iff hprint k)
  · exact throughCbor_map_iff_of_uncrossed hprint

/-- A map with keys of four kinds, over a plain `ext` item. -/
def mixedKeys : Mp :=
  .map [(.nil, .boolean true), (.boolean false, .nil), (.integer ⟨7, by decide, by decide⟩, .nil),
    (.string (.text "a"), .ext (I8.ofNat 5) [1])]

def binaryKey : Mp := .map [(.binary [0], .nil)]

/-- The map with the plain keys comes out alike, the one with the binary key does not. -/
theorem renderings_agree_iff_keys :
    toJsonValue flagPlatform (mpToCbor flagPlatform.fp mixedKeys) =
        mpToJson flagPlatform mixedKeys ∧
      toJsonValue flagPlatform (mpToCbor flagPlatform.fp binaryKey) ≠
        mpToJson flagPlatform binaryKey := by
  obtain ⟨hagree, hkeys, huncrossed⟩ := renderings_agree_iff flagPlatform_printsJson
  constructor
  · refine (hagree mixedKeys).2 (.map ?_)
    simp only [List.forall_mem_cons, List.not_mem_nil, false_implies, implies_true, and_true]
    refine ⟨.shown .nil (.scalar rfl), .shown (.boolean _) (.scalar rfl),
      .shown (.integer _) (.scalar rfl), .shown (.string _) (.ext ?_)⟩
    exact ⟨by decide, by decide, fun h => absurd h (by decide)⟩
  · intro heq
    have hapart : KeysUncrossed flagPlatform [(.binary [0], .nil)] := by
      intro e he f hf hk
      rw [List.mem_singleton.1 he, List.mem_singleton.1 hf] at hk
      cases (hkeys (.binary [0])).1 hk
    obtain ⟨hkey, -⟩ := (huncrossed _ hapart).1 heq _ (List.mem_singleton_self _)
    cases hkey

/-- The epoch as a timestamp. -/
def epoch : Mp := .ext TIMESTAMP_EXT [0, 0, 0, 0]

/-- Directly the epoch is an object, through CBOR it is a number. -/
theorem renderings_disagree :
    mpToJson Platform.bare epoch = .object [("timestamp", .string "1970-01-01T00:00:00Z")] ∧
      toJsonValue Platform.bare (mpToCbor Platform.bare.fp epoch) = intToJson 0 ∧
      toJsonValue Platform.bare (mpToCbor Platform.bare.fp epoch) ≠
        mpToJson Platform.bare epoch := by
  have hdecode : decodeTimestamp [0, 0, 0, 0] = some (I64.wrap 0, ⟨0, by decide, by decide⟩) := by
    decide
  have htext : rfc3339 (I64.wrap 0) ⟨0, by decide, by decide⟩ = "1970-01-01T00:00:00Z" := by
    decide
  refine ⟨?_, ?_, throughCbor_timestamp hdecode⟩
  · rw [epoch, mpToJson, extToJson, if_pos rfl, hdecode]
    simp only [htext, Json.insert]
  · have hcbor : mpToCbor Platform.bare.fp epoch = .tag 1 (.integer ⟨0, by decide, by decide⟩) := by
      simp only [epoch, mpToCbor, extToCbor, if_true, hdecode, instantToCbor]
      rfl
    rw [hcbor, toJsonValue, toJsonValue]

end VgiCbor.Msgpack
