import VgiCbor.Core.ConcreteCodecs
import VgiCbor.Core.Encode
import VgiCbor.Core.Validate

/-!
# Duplicate keys before and after canonicalization

Keys are compared with the entries of the maps inside them as they stand, and
canonicalizing puts these entries in order.  A value can therefore gain duplicate keys, when
keys merge, and with signed zeros inside its keys it can lose them, when keys part.  If no
keys do either, canonicalizing keeps duplicate keys and makes none
(`duplicates_survive_iff`).
-/

namespace VgiCbor

open KeySort

variable {codec : CborCodec} {mode : Canon}

/-! ## Equality of keys -/

theorem floatsEqual_refl (x : Binary64.F64) : floatsEqual x x = true := by
  unfold floatsEqual
  split_ifs with hnan
  · simpa using hnan
  · simp

theorem floatsEqual_comm (x y : Binary64.F64) : floatsEqual x y = floatsEqual y x := by
  unfold floatsEqual
  rw [Bool.or_comm y.isNan, Bool.and_comm y.isNan, Bool.and_comm (y.toRat?.any _),
    Bool.beq_comm (a := y.bits)]

theorem itemsEqual_refl {items : List Value} (h : ∀ v ∈ items, valuesEqual v v = true) :
    itemsEqual items items = true := by
  induction items with
  | nil => rfl
  | cons v vs ih =>
      obtain ⟨hv, hvs⟩ := List.forall_mem_cons.1 h
      rw [itemsEqual, hv, ih hvs, Bool.and_true]

theorem entriesEqual_refl {entries : List (Value × Value)}
    (h : ∀ e ∈ entries, valuesEqual e.1 e.1 = true ∧ valuesEqual e.2 e.2 = true) :
    entriesEqual entries entries = true := by
  induction entries with
  | nil => rfl
  | cons e es ih =>
      obtain ⟨⟨hk, hv⟩, hes⟩ := List.forall_mem_cons.1 h
      rw [entriesEqual, hk, hv, ih hes, Bool.and_true, Bool.and_true]

theorem valuesEqual_refl (v : Value) : valuesEqual v v = true := by
  induction v with
  | null => rfl
  | bool b => simp [valuesEqual]
  | integer n => simp [valuesEqual]
  | float f => exact floatsEqual_refl f
  | text s => simp [valuesEqual]
  | bytes b => simp [valuesEqual]
  | array items ih => rw [valuesEqual, itemsEqual_refl ih]
  | map entries ih => rw [valuesEqual, entriesEqual_refl ih]
  | tag t inner ih => rw [valuesEqual, ih, beq_self_eq_true, Bool.and_true]

theorem itemsEqual_comm {items : List Value}
    (h : ∀ v ∈ items, ∀ w, valuesEqual v w = valuesEqual w v) (others : List Value) :
    itemsEqual items others = itemsEqual others items := by
  induction items generalizing others with
  | nil => cases others <;> rfl
  | cons v vs ih =>
      obtain ⟨hv, hvs⟩ := List.forall_mem_cons.1 h
      cases others with
      | nil => rfl
      | cons w ws => rw [itemsEqual, itemsEqual, hv w, ih hvs ws]

theorem entriesEqual_comm {entries : List (Value × Value)}
    (h : ∀ e ∈ entries, (∀ w, valuesEqual e.1 w = valuesEqual w e.1) ∧
      ∀ w, valuesEqual e.2 w = valuesEqual w e.2) (others : List (Value × Value)) :
    entriesEqual entries others = entriesEqual others entries := by
  induction entries generalizing others with
  | nil => cases others <;> rfl
  | cons e es ih =>
      obtain ⟨⟨hk, hv⟩, hes⟩ := List.forall_mem_cons.1 h
      cases others with
      | nil => rfl
      | cons f fs => rw [entriesEqual, entriesEqual, hk f.1, hv f.2, ih hes fs]

theorem valuesEqual_comm (v w : Value) : valuesEqual v w = valuesEqual w v := by
  induction v generalizing w with
  | null => cases w <;> rfl
  | bool b => cases w <;> simp [valuesEqual, Bool.beq_comm]
  | integer n => cases w <;> simp [valuesEqual, eq_comm]
  | float f =>
      cases w with
      | float g => exact floatsEqual_comm f g
      | _ => rfl
  | text s =>
      cases w with
      | text s' => rw [valuesEqual, valuesEqual, Bool.beq_comm]
      | _ => rfl
  | bytes b =>
      cases w with
      | bytes b' => rw [valuesEqual, valuesEqual, Bool.beq_comm]
      | _ => rfl
  | array items ih =>
      cases w with
      | array others => rw [valuesEqual, valuesEqual, itemsEqual_comm ih]
      | _ => rfl
  | map entries ih =>
      cases w with
      | map others => rw [valuesEqual, valuesEqual, entriesEqual_comm ih]
      | _ => rfl
  | tag t inner ih =>
      cases w with
      | tag t' inner' => rw [valuesEqual, valuesEqual, ih inner', Bool.beq_comm]
      | _ => rfl

/-! ## Keys of one map -/

/-- No two keys of one map inside the value are related, at any depth and inside keys too. -/
def KeysApart (related : Value → Value → Prop) (v : Value) : Prop :=
  v.EveryMap fun entries => entries.Pairwise fun e f => ¬ related e.1 f.1

/-- The keys are equal as they stand: this is what `has_duplicate_keys` asks of two keys of a
map. -/
def EqualAsTheyStand (k l : Value) : Prop := valuesEqual k l = true

/-- The keys are equal once the entries of all maps inside them are put in order.  Any such
order will do; that it is the one of `canonicalize` is a result. -/
def EqualInOrder (codec : CborCodec) (mode : Canon) (k l : Value) : Prop :=
  ∃ k' l', Reorders k k' ∧ Reorders l l' ∧ k'.EveryMap (EntriesOrdered codec mode) ∧
    l'.EveryMap (EntriesOrdered codec mode) ∧ valuesEqual k' l' = true

/-- The keys have equal canonical forms. -/
def EqualCanonically (codec : CborCodec) (mode : Canon) (k l : Value) : Prop :=
  valuesEqual (canonicalize codec mode k) (canonicalize codec mode l) = true

theorem hasEqualPair_eq_false_iff {entries : List (Value × Value)} :
    hasEqualPair entries = false ↔
      entries.Pairwise fun e f => ¬ EqualAsTheyStand e.1 f.1 := by
  induction entries with
  | nil => simp [hasEqualPair]
  | cons e es ih =>
      obtain ⟨k, v⟩ := e
      rw [hasEqualPair, Bool.or_eq_false_iff, ih, List.pairwise_cons, List.any_eq_false]
      rfl

theorem itemsHaveDuplicateKeys_eq_false_iff {items : List Value} :
    itemsHaveDuplicateKeys items = false ↔ ∀ v ∈ items, hasDuplicateKeys v = false := by
  induction items with
  | nil => simp [itemsHaveDuplicateKeys]
  | cons v vs ih =>
      rw [itemsHaveDuplicateKeys, Bool.or_eq_false_iff, ih, List.forall_mem_cons]

theorem entriesHaveDuplicateKeys_eq_false_iff {entries : List (Value × Value)} :
    entriesHaveDuplicateKeys entries = false ↔
      ∀ e ∈ entries, hasDuplicateKeys e.1 = false ∧ hasDuplicateKeys e.2 = false := by
  induction entries with
  | nil => simp [entriesHaveDuplicateKeys]
  | cons e es ih =>
      obtain ⟨k, v⟩ := e
      rw [entriesHaveDuplicateKeys, Bool.or_eq_false_iff, Bool.or_eq_false_iff, ih,
        List.forall_mem_cons]

/-- What is looked for is a pair of equal keys in a map at any depth. -/
theorem hasDuplicateKeys_eq_false_iff {v : Value} :
    hasDuplicateKeys v = false ↔ KeysApart EqualAsTheyStand v := by
  unfold KeysApart
  induction v with
  | array items ih =>
      rw [hasDuplicateKeys, itemsHaveDuplicateKeys_eq_false_iff, Value.everyMap_array]
      exact forall₂_congr ih
  | map entries ih =>
      rw [hasDuplicateKeys, Bool.or_eq_false_iff, hasEqualPair_eq_false_iff,
        entriesHaveDuplicateKeys_eq_false_iff, Value.everyMap_map]
      exact and_congr_right fun _ => forall₂_congr fun e he => and_congr (ih e he).1 (ih e he).2
  | tag t inner ih => rw [hasDuplicateKeys, ih, Value.EveryMap]
  | _ => exact iff_of_true rfl trivial

/-! ## Canonicalizing -/

theorem keysApart_canonicalize {v : Value} :
    KeysApart EqualAsTheyStand (canonicalize codec mode v) ↔
      KeysApart (EqualCanonically codec mode) v := by
  unfold KeysApart
  rw [everyMap_canonicalize]
  · simp only [List.pairwise_map]
    rfl
  · intro es fs hperm
    apply hperm.pairwise_iff
    intro e f hne heq
    exact hne ((valuesEqual_comm e.1 f.1).trans heq)

theorem equalInOrder_of_canonically {k l : Value} (h : EqualCanonically codec mode k l) :
    EqualInOrder codec mode k l :=
  ⟨_, _, reorders_canonicalize k, reorders_canonicalize l, canonicalize_ordered k,
    canonicalize_ordered l, h⟩

/-- Keys with distinct keys inside can be put in order in one way only, which is the one of
`canonicalize`. -/
theorem equalCanonically_of_inOrder (hcodec : codec.Injective) {k l : Value}
    (hk : k.EveryMap (KeysDistinct codec mode)) (hl : l.EveryMap (KeysDistinct codec mode))
    (h : EqualInOrder codec mode k l) : EqualCanonically codec mode k l := by
  obtain ⟨k', l', hkk, hll, hk', hl', heq⟩ := h
  rw [EqualCanonically, (hkk.canonicalize_eq hcodec hk).2, (hll.canonicalize_eq hcodec hl).2,
    canonicalize_eq_self hk', canonicalize_eq_self hl']
  exact heq

theorem keysDistinct_of_apart {v : Value} (h : KeysApart (EqualCanonically codec mode) v) :
    v.EveryMap (KeysDistinct codec mode) := by
  refine Value.EveryMap.imp (fun entries hapart _ => ?_) h
  rw [KeysDistinct, List.Nodup, List.pairwise_map]
  refine hapart.imp fun hne heq => hne ?_
  rw [EqualCanonically, heq]
  exact valuesEqual_refl _

/-- Canonical forms of keys are apart exactly if the keys are apart however they are put in
order. -/
theorem keysApart_canonically_iff (hcodec : codec.Injective) {v : Value} :
    KeysApart (EqualCanonically codec mode) v ↔ KeysApart (EqualInOrder codec mode) v := by
  constructor
  · refine Value.EveryMap.imp fun entries hapart hinside => ?_
    refine hapart.imp_of_mem fun he hf hne heq => hne ?_
    exact equalCanonically_of_inOrder hcodec (keysDistinct_of_apart (hinside _ he))
      (keysDistinct_of_apart (hinside _ hf)) heq
  · refine Value.EveryMap.imp fun entries hapart _ => ?_
    exact hapart.imp fun hne heq => hne (equalInOrder_of_canonically heq)

theorem hasDuplicateKeys_canonicalize (hcodec : codec.Injective) {v : Value} :
    hasDuplicateKeys (canonicalize codec mode v) = false ↔
      KeysApart (EqualInOrder codec mode) v := by
  rw [hasDuplicateKeys_eq_false_iff, keysApart_canonicalize, keysApart_canonically_iff hcodec]

/-! ## Where the two agree -/

/-- The keys are not equal as they stand, but they are once the entries of the maps inside
them are put in order. -/
def Merging (codec : CborCodec) (mode : Canon) (k l : Value) : Prop :=
  ¬ EqualAsTheyStand k l ∧ EqualInOrder codec mode k l

/-- The keys are equal as they stand, but not once the entries of the maps inside them are
put in order: equal floats inside them are encoded in different ways. -/
def Parting (codec : CborCodec) (mode : Canon) (k l : Value) : Prop :=
  ¬ EqualInOrder codec mode k l ∧ EqualAsTheyStand k l

/-- Keys that are apart stay apart if no others meet.  It is used in both directions, for
merging and for parting. -/
theorem KeysApart.of_noneNew {before after : Value → Value → Prop} {v : Value}
    (hbefore : KeysApart before v)
    (hnew : KeysApart (fun k l => ¬ before k l ∧ after k l) v) : KeysApart after v := by
  refine Value.EveryMap.imp (fun entries hboth _ => ?_) (Value.EveryMap.and hbefore hnew)
  exact (hboth.1.and hboth.2).imp fun hne hafter => hne.2 ⟨hne.1, hafter⟩

theorem KeysApart.noneNew {before after : Value → Value → Prop} {v : Value}
    (hafter : KeysApart after v) : KeysApart (fun k l => ¬ before k l ∧ after k l) v :=
  Value.EveryMap.imp (fun _ hapart _ => hapart.imp fun hne hnew => hne hnew.2) hafter

/-- The two counts agree if the value and its canonical form are both without equal keys, or
neither is. -/
theorem duplicates_eq_iff (hcodec : codec.Injective) {v : Value} :
    hasDuplicateKeys (canonicalize codec mode v) = hasDuplicateKeys v ↔
      (KeysApart EqualAsTheyStand v ↔ KeysApart (EqualInOrder codec mode) v) := by
  rw [← hasDuplicateKeys_eq_false_iff, ← hasDuplicateKeys_canonicalize hcodec]
  cases hasDuplicateKeys (canonicalize codec mode v) <;> cases hasDuplicateKeys v <;> simp

theorem duplicates_survive (hcodec : codec.Injective) {v : Value}
    (hmerging : KeysApart (Merging codec mode) v) (hparting : KeysApart (Parting codec mode) v) :
    hasDuplicateKeys (canonicalize codec mode v) = hasDuplicateKeys v := by
  rw [duplicates_eq_iff hcodec]
  exact ⟨fun hbefore => hbefore.of_noneNew hmerging, fun hafter => hafter.of_noneNew hparting⟩

/-- Where no keys are equal as they stand, merging is all that can happen, so there it decides
alone. -/
theorem duplicates_survive_iff_noneMerge (hcodec : codec.Injective) {v : Value}
    (hbefore : KeysApart EqualAsTheyStand v) :
    hasDuplicateKeys (canonicalize codec mode v) = hasDuplicateKeys v ↔
      KeysApart (Merging codec mode) v := by
  rw [duplicates_eq_iff hcodec]
  constructor
  · exact fun hsame => (hsame.1 hbefore).noneNew
  · exact fun hmerging => iff_of_true hbefore (hbefore.of_noneNew hmerging)

/-- Where no keys are equal in order, parting is all that can have happened. -/
theorem duplicates_survive_iff_nonePart (hcodec : codec.Injective) {v : Value}
    (hafter : KeysApart (EqualInOrder codec mode) v) :
    hasDuplicateKeys (canonicalize codec mode v) = hasDuplicateKeys v ↔
      KeysApart (Parting codec mode) v := by
  rw [duplicates_eq_iff hcodec]
  constructor
  · exact fun hsame => (hsame.2 hafter).noneNew
  · exact fun hparting => iff_of_true (hafter.of_noneNew hparting) hafter

/-- Keys in which no map has two entries are in order as they stand. -/
theorem equalInOrder_iff_of_small (hcodec : codec.Injective) {k l : Value}
    (hk : k.EveryMap fun entries => entries.length ≤ 1)
    (hl : l.EveryMap fun entries => entries.length ≤ 1) :
    EqualInOrder codec mode k l ↔ EqualAsTheyStand k l := by
  have hordered {v : Value} (h : v.EveryMap fun entries => entries.length ≤ 1) :
      v.EveryMap (EntriesOrdered codec mode) ∧ v.EveryMap (KeysDistinct codec mode) := by
    constructor <;> refine Value.EveryMap.imp (fun entries hlength _ => ?_) h
    · match entries, hlength with
      | [], _ => exact List.Pairwise.nil
      | [_], _ => exact List.pairwise_singleton _ _
    · match entries, hlength with
      | [], _ => exact List.nodup_nil
      | [_], _ => exact List.nodup_singleton _
  constructor
  · intro h
    have hcanonical := equalCanonically_of_inOrder hcodec (hordered hk).2 (hordered hl).2 h
    rwa [EqualCanonically, canonicalize_eq_self (hordered hk).1,
      canonicalize_eq_self (hordered hl).1] at hcanonical
  · intro h
    apply equalInOrder_of_canonically
    rwa [EqualCanonically, canonicalize_eq_self (hordered hk).1,
      canonicalize_eq_self (hordered hl).1]

/-- No map inside a key has two entries.  Scalar keys are of this kind, and arrays and tags of
them. -/
def SmallKeys (v : Value) : Prop :=
  v.EveryMap fun entries => ∀ e ∈ entries, e.1.EveryMap fun inside => inside.length ≤ 1

/-- Such keys neither merge nor part: there is nothing in them that could be put in another
order. -/
theorem noneMerge_nonePart_of_small (hcodec : codec.Injective) {v : Value} (h : SmallKeys v) :
    KeysApart (Merging codec mode) v ∧ KeysApart (Parting codec mode) v := by
  constructor <;> refine Value.EveryMap.imp (fun entries hsmall _ => ?_) h
  · refine List.Pairwise.imp_of_mem (fun he hf _ => ?_) (List.pairwise_of_forall fun _ _ => trivial)
    rw [Merging, equalInOrder_iff_of_small hcodec (hsmall _ he) (hsmall _ hf)]
    exact fun hboth => hboth.1 hboth.2
  · refine List.Pairwise.imp_of_mem (fun he hf _ => ?_) (List.pairwise_of_forall fun _ _ => trivial)
    rw [Parting, equalInOrder_iff_of_small hcodec (hsmall _ he) (hsmall _ hf)]
    exact fun hboth => hboth.1 hboth.2

/-- What is well formed stays so exactly if no keys merge.  The codec has to keep one value
only, the canonical one. -/
theorem wellFormed_canonical_iff (hcodec : codec.Injective) (hlimit : codec.Limited)
    {blob : Bytes} {v : Value} (hparse : parseStrict codec blob = .ok v)
    (hok : (wellFormed codec blob).ok = true) (hkept : codec.Keeps (canonicalize codec mode v)) :
    (∃ out, canonical codec blob mode = .ok out ∧ (wellFormed codec out).ok = true) ↔
      KeysApart (Merging codec mode) v := by
  obtain ⟨v', hparse', hapart⟩ := wellFormed_ok_iff.1 hok
  obtain rfl : v = v' := Except.ok.inj (hparse.symm.trans hparse')
  obtain ⟨out, hout, hback⟩ := canonical_ok hlimit hkept hparse
  rw [← duplicates_survive_iff_noneMerge hcodec (hasDuplicateKeys_eq_false_iff.1 hapart), hapart]
  constructor
  · rintro ⟨out', hout', hok'⟩
    obtain rfl : out = out' := Except.ok.inj (hout.symm.trans hout')
    obtain ⟨w, hw, hdistinct⟩ := wellFormed_ok_iff.1 hok'
    obtain rfl : canonicalize codec mode v = w := Except.ok.inj (hback.symm.trans hw)
    exact hdistinct
  · exact fun hdistinct => ⟨out, hout, wellFormed_ok_iff.2 ⟨_, hback, hdistinct⟩⟩

/-- Canonicalizing keeps whether there are duplicate keys if no keys of one map merge or
part, as where no map inside a key has two entries.  Without equal keys, as in a well formed
blob, it does so only if none merge; and without keys that are equal in order only if none
part. -/
theorem duplicates_survive_iff (hcodec : codec.Injective) (hlimit : codec.Limited)
    (mode : Canon) :
    (∀ v, KeysApart (Merging codec mode) v → KeysApart (Parting codec mode) v →
      hasDuplicateKeys (canonicalize codec mode v) = hasDuplicateKeys v) ∧
    (∀ v, SmallKeys v → hasDuplicateKeys (canonicalize codec mode v) = hasDuplicateKeys v) ∧
    (∀ v, KeysApart EqualAsTheyStand v →
      (hasDuplicateKeys (canonicalize codec mode v) = hasDuplicateKeys v ↔
        KeysApart (Merging codec mode) v)) ∧
    (∀ v, KeysApart (EqualInOrder codec mode) v →
      (hasDuplicateKeys (canonicalize codec mode v) = hasDuplicateKeys v ↔
        KeysApart (Parting codec mode) v)) ∧
    ∀ blob v, parseStrict codec blob = .ok v → (wellFormed codec blob).ok = true →
      codec.Keeps (canonicalize codec mode v) →
      ((∃ out, canonical codec blob mode = .ok out ∧ (wellFormed codec out).ok = true) ↔
        KeysApart (Merging codec mode) v) :=
  ⟨fun _ => duplicates_survive hcodec,
    fun _ hsmall =>
      (noneMerge_nonePart_of_small hcodec hsmall).elim (duplicates_survive hcodec),
    fun _ => duplicates_survive_iff_noneMerge hcodec,
    fun _ => duplicates_survive_iff_nonePart hcodec,
    fun _ _ => wellFormed_canonical_iff hcodec hlimit⟩

/-- A map whose two keys are maps with the same entries, in different orders. -/
def swapped : Value :=
  .map [(.map [(.bool false, .null), (.bool true, .null)], .null),
    (.map [(.bool true, .null), (.bool false, .null)], .null)]

/-- A map whose two keys are maps that differ in more than the order of their entries. -/
def nearlyEqual : Value :=
  .map [(.map [(.bool false, .null), (.bool true, .null)], .null),
    (.map [(.bool true, .null), (.bool false, .bool true)], .null)]

/-- The keys of `swapped` merge, and those of `nearlyEqual` do not; its canonical form is well
formed. -/
theorem duplicates_survive_iff_swapped :
    ¬ KeysApart (Merging Definite.codec .core) swapped ∧
      KeysApart (Merging Definite.codec .core) nearlyEqual ∧
      ∃ out, canonical Definite.codec (Definite.encode nearlyEqual) .core = .ok out ∧
        (wellFormed Definite.codec out).ok = true := by
  obtain ⟨-, -, hmerging, -, hblob⟩ :=
    duplicates_survive_iff Definite.codec_injective Definite.codec_limited .core
  have hread : parseStrict Definite.codec (Definite.encode nearlyEqual) = .ok nearlyEqual :=
    (Definite.codec_roundTrips.keeps _).parseStrict_encode rfl
  have hapart {v : Value} (h : hasDuplicateKeys v = false) : KeysApart EqualAsTheyStand v :=
    hasDuplicateKeys_eq_false_iff.1 h
  have hnone : KeysApart (Merging Definite.codec .core) nearlyEqual :=
    (hmerging nearlyEqual (hapart (by decide))).1 (by decide)
  refine ⟨fun h => ?_, hnone, ?_⟩
  · have hsame := (hmerging swapped (hapart (by decide))).2 h
    revert hsame
    decide
  · exact (hblob _ _ hread (wellFormed_ok_iff.2 ⟨_, hread, by decide⟩)
      (Definite.codec_roundTrips.keeps _)).2 hnone

/-- The blob of `swapped` is well formed, and its canonical form is not. -/
theorem canonical_gains_duplicate_keys :
    (wellFormed Definite.codec (Definite.encode swapped)).ok = true ∧
      hasDuplicateKeys (canonicalize Definite.codec .core swapped) ≠ hasDuplicateKeys swapped ∧
      ∃ out, canonical Definite.codec (Definite.encode swapped) .core = .ok out ∧
        (wellFormed Definite.codec out).kind = some "duplicate-key" := by
  have hread : parseStrict Definite.codec (Definite.encode swapped) = .ok swapped :=
    (Definite.codec_roundTrips.keeps _).parseStrict_encode rfl
  have hafter : hasDuplicateKeys (canonicalize Definite.codec .core swapped) = true := by decide
  have hbefore : hasDuplicateKeys swapped = false := by decide
  obtain ⟨out, hout, hback⟩ := canonical_ok Definite.codec_limited
    (Definite.codec_roundTrips.keeps (canonicalize Definite.codec .core swapped)) hread
  refine ⟨wellFormed_ok_iff.2 ⟨swapped, hread, hbefore⟩, ?_, out, hout, ?_⟩
  · rw [hafter, hbefore]
    exact Bool.noConfusion
  · simp only [wellFormed, hback, hafter, if_true]
    rfl

end VgiCbor
