import VgiCbor.Core.ConcreteCodecs
import VgiCbor.Core.Encode

/-!
# The `ctap2` order and the rule of CTAP2

CTAP2 sorts the keys of a map by major type, then by the length of the encoding, then
bytewise.  The `ctap2` mode leaves the major type out.  The order it computes is the one of
the rule exactly if in every map the keys of a lower major type are no longer than those of
a higher one (`ctap2_order_iff`).
-/

namespace VgiCbor

open BigEndian Definite KeySort MachineInt

variable {codec : CborCodec} {mode : Canon}

def majorType : Value → Nat
  | .integer n => if 0 ≤ n.val then 0 else 1
  | .bytes _ => 2
  | .text _ => 3
  | .array _ => 4
  | .map _ => 5
  | .tag _ _ => 6
  | .null => 7
  | .bool _ => 7
  | .float _ => 7

/-- What the external encoder documents: arguments in the shortest head, definite lengths,
and the items of a container one after the other. -/
structure CborCodec.Preferred (codec : CborCodec) : Prop where
  encode_null : keyBytes codec .null = [initial 7 22]
  encode_bool : ∀ b, keyBytes codec (.bool b) = [initial 7 (if b then 21 else 20)]
  encode_integer : ∀ n, keyBytes codec (.integer n) =
    if 0 ≤ n.val then headBytes 0 n.val.toNat else headBytes 1 (-1 - n.val).toNat
  encode_float : ∀ f, ∃ info argument, 25 ≤ info ∧ info ≤ 27 ∧
    keyBytes codec (.float f) = initial 7 info :: argument
  encode_text : ∀ s, keyBytes codec (.text s) =
    headBytes 3 s.toUTF8.data.toList.length ++ s.toUTF8.data.toList
  encode_bytes : ∀ b, keyBytes codec (.bytes b) = headBytes 2 b.length ++ b
  encode_array : ∀ items, keyBytes codec (.array items) =
    headBytes 4 items.length ++ items.flatMap (keyBytes codec)
  encode_map : ∀ entries, keyBytes codec (.map entries) = headBytes 5 entries.length ++
    entries.flatMap fun e => keyBytes codec e.1 ++ keyBytes codec e.2
  encode_tag : ∀ t inner, keyBytes codec (.tag t inner) =
    headBytes 6 t.toNat ++ keyBytes codec inner

/-! ## The rule -/

/-- How CTAP2 compares two keys: by major type, then by the length of the encoding, then
bytewise. -/
def ctap2Compare (codec : CborCodec) (k l : Value) : Ordering :=
  (compare (majorType k) (majorType l)).then
    ((compare (keyBytes codec k).length (keyBytes codec l).length).then
      (compare (keyBytes codec k) (keyBytes codec l)))

def Ctap2Ordered (codec : CborCodec) (entries : List (Value × Value)) : Prop :=
  entries.Pairwise fun e f => (ctap2Compare codec e.1 f.1).isLE = true

/-- Keys of a lower major type are no longer than keys of a higher one.  Then sorting by
length first does no harm. -/
def LengthsFollowMajorTypes (codec : CborCodec) (entries : List (Value × Value)) : Prop :=
  ∀ e ∈ entries, ∀ f ∈ entries, majorType e.1 < majorType f.1 →
    (keyBytes codec e.1).length ≤ (keyBytes codec f.1).length

/-- An integer, a byte or text string, or a simple value.  No string of a machine has
`2^64` bytes. -/
def isBasicKey : Value → Bool
  | .null => true
  | .bool _ => true
  | .integer _ => true
  | .bytes b => decide (b.length < 0x10000000000000000)
  | .text s => decide (s.toUTF8.data.toList.length < 0x10000000000000000)
  | _ => false

/-- All keys of the map are basic: `null`, flags, integers and strings, whose encodings are a
head and at most the bytes it announces. -/
def BasicKeys (entries : List (Value × Value)) : Prop := ∀ e ∈ entries, isBasicKey e.1 = true

/-! ## Heads -/

/-- The additional information of a head and the bytes of the argument behind it. -/
theorem headBytes_eq (major : Nat) {n : Nat} (h : n < 0x10000000000000000) :
    ∃ info width, info < 32 ∧ headBytes major n = initial major info :: toBytes width n ∧
      (n < 24 ∧ info = n ∧ width = 0 ∨
        24 ≤ n ∧ n < 0x100 ∧ info = 24 ∧ width = 1 ∨
        0x100 ≤ n ∧ n < 0x10000 ∧ info = 25 ∧ width = 2 ∨
        0x10000 ≤ n ∧ n < 0x100000000 ∧ info = 26 ∧ width = 4 ∨
        0x100000000 ≤ n ∧ info = 27 ∧ width = 8) := by
  unfold headBytes
  split_ifs with h1 h2 h3 h4
  · exact ⟨n, 0, by omega, rfl, by omega⟩
  · exact ⟨24, 1, by omega, rfl, by omega⟩
  · exact ⟨25, 2, by omega, rfl, by omega⟩
  · exact ⟨26, 4, by omega, rfl, by omega⟩
  · exact ⟨27, 8, by omega, rfl, by omega⟩

/-- A head starts with its major type. -/
theorem headBytes_head (major n : Nat) :
    ∃ info rest, info < 32 ∧ headBytes major n = initial major info :: rest := by
  unfold headBytes
  split_ifs
  · exact ⟨n, [], by omega, rfl⟩
  · exact ⟨24, _, by omega, rfl⟩
  · exact ⟨25, _, by omega, rfl⟩
  · exact ⟨26, _, by omega, rfl⟩
  · exact ⟨27, _, by omega, rfl⟩
  · exact ⟨28, _, by omega, rfl⟩

/-- A larger argument takes no shorter head. -/
theorem headBytes_length_mono (major : Nat) {n m : Nat} (h : n ≤ m)
    (hm : m < 0x10000000000000000) :
    (headBytes major n).length ≤ (headBytes major m).length := by
  obtain ⟨info, width, -, hn, hcases⟩ := headBytes_eq major (h.trans_lt hm)
  obtain ⟨info', width', -, hm, hcases'⟩ := headBytes_eq major hm
  rw [hn, hm, List.length_cons, List.length_cons, toBytes_length, toBytes_length]
  omega

theorem initial_compare {major info major' info' : Nat} (hmajor : major < 8)
    (hmajor' : major' < 8) (hinfo : info < 32) (hinfo' : info' < 32)
    (h : major * 32 + info < major' * 32 + info') :
    compare (initial major info) (initial major' info') = .lt := by
  obtain ⟨hdiv, hmod⟩ := initial_toNat hmajor hinfo
  obtain ⟨hdiv', hmod'⟩ := initial_toNat hmajor' hinfo'
  rw [Std.compare_eq_lt, UInt8.lt_iff_toNat_lt]
  omega

/-- A larger argument makes a later head, whatever stands behind.  For integers this is all
there is to compare. -/
theorem headBytes_compare {major n m : Nat} (hmajor : major < 8) (h : n < m)
    (hm : m < 0x10000000000000000) (p q : Bytes) :
    compare (headBytes major n ++ p) (headBytes major m ++ q) = .lt := by
  obtain ⟨info, width, hinfo, hn, hcases⟩ := headBytes_eq major (h.trans hm)
  obtain ⟨info', width', hinfo', hm, hcases'⟩ := headBytes_eq major hm
  rw [hn, hm, List.cons_append, List.cons_append, List.compare_cons_cons]
  by_cases hlt : info < info'
  · rw [initial_compare hmajor hmajor hinfo hinfo' (by omega)]
    rfl
  · -- The heads are of one form, and the arguments differ.
    obtain ⟨rfl, rfl⟩ : info' = info ∧ width' = width := by omega
    have hfit : m < 256 ^ width' := by
      rcases hcases' with hc | hc | hc | hc | hc
      · omega
      · rw [hc.2.2.2]
        omega
      · rw [hc.2.2.2]
        omega
      · rw [hc.2.2.2]
        omega
      · rw [hc.2.2]
        omega
    rw [Std.compare_self, Ordering.then]
    apply compare_append_of_ofBytes_lt
    · rw [toBytes_length, toBytes_length]
    · rw [ofBytes_toBytes_of_lt (h.trans hfit), ofBytes_toBytes_of_lt hfit]
      exact h

/-! ## Encoded keys -/

theorem majorType_lt (v : Value) : majorType v < 8 := by
  cases v with
  | integer n =>
      rw [majorType]
      split_ifs <;> decide
  | _ => simp [majorType]

/-- The encoding of an item starts with its major type. -/
theorem keyBytes_head (hcodec : codec.Preferred) (v : Value) :
    ∃ info rest, info < 32 ∧ keyBytes codec v = initial (majorType v) info :: rest := by
  have happend {major n : Nat} (behind : Bytes) :
      ∃ info rest, info < 32 ∧ headBytes major n ++ behind = initial major info :: rest := by
    obtain ⟨info, rest, hinfo, hhead⟩ := headBytes_head major n
    exact ⟨info, rest ++ behind, hinfo, by rw [hhead, List.cons_append]⟩
  cases v with
  | null => exact ⟨22, [], by omega, hcodec.encode_null⟩
  | bool b => exact ⟨_, [], by split_ifs <;> omega, hcodec.encode_bool b⟩
  | integer n =>
      rw [hcodec.encode_integer, majorType]
      split_ifs <;> exact headBytes_head _ _
  | float f =>
      obtain ⟨info, argument, -, hinfo, hbytes⟩ := hcodec.encode_float f
      exact ⟨info, argument, by omega, hbytes⟩
  | text s =>
      rw [hcodec.encode_text]
      exact happend _
  | bytes b =>
      rw [hcodec.encode_bytes]
      exact happend _
  | array items =>
      rw [hcodec.encode_array]
      exact happend _
  | map entries =>
      rw [hcodec.encode_map]
      exact happend _
  | tag t inner =>
      rw [hcodec.encode_tag]
      exact happend _

/-- Bytewise, a lower major type comes first. -/
theorem compare_of_majorType_lt (hcodec : codec.Preferred) {k l : Value}
    (h : majorType k < majorType l) : compare (keyBytes codec k) (keyBytes codec l) = .lt := by
  obtain ⟨info, rest, hinfo, hk⟩ := keyBytes_head hcodec k
  obtain ⟨info', rest', hinfo', hl⟩ := keyBytes_head hcodec l
  rw [hk, hl, List.compare_cons_cons,
    initial_compare (majorType_lt k) (majorType_lt l) hinfo hinfo' (by omega)]
  rfl

/-- A basic key is a head, and for strings the bytes that the head announces. -/
theorem keyBytes_of_basic (hcodec : codec.Preferred) {k : Value} (h : isBasicKey k = true) :
    ∃ n p, n < 0x10000000000000000 ∧ keyBytes codec k = headBytes (majorType k) n ++ p ∧
      p.length = if majorType k = 2 ∨ majorType k = 3 then n else 0 := by
  cases k with
  | null => exact ⟨22, [], by omega, hcodec.encode_null, rfl⟩
  | bool b =>
      refine ⟨if b then 21 else 20, [], by split_ifs <;> omega, ?_, rfl⟩
      rw [hcodec.encode_bool]
      cases b <;> rfl
  | integer n =>
      have hge := n.ge
      have hlt := n.lt
      by_cases hsign : 0 ≤ n.val
      · refine ⟨n.val.toNat, [], by omega, ?_, ?_⟩
        · rw [hcodec.encode_integer, majorType, if_pos hsign, if_pos hsign, List.append_nil]
        · rw [majorType, if_pos hsign]
          rfl
      · refine ⟨(-1 - n.val).toNat, [], by omega, ?_, ?_⟩
        · rw [hcodec.encode_integer, majorType, if_neg hsign, if_neg hsign, List.append_nil]
        · rw [majorType, if_neg hsign]
          rfl
  | text s => exact ⟨_, _, of_decide_eq_true h, hcodec.encode_text s, rfl⟩
  | bytes b => exact ⟨_, _, of_decide_eq_true h, hcodec.encode_bytes b, rfl⟩
  | float f => cases h
  | array items => cases h
  | map entries => cases h
  | tag t inner => cases h

/-- Among basic keys of one major type a shorter encoding comes first bytewise. -/
theorem compare_of_length_lt (hcodec : codec.Preferred) {k l : Value}
    (hk : isBasicKey k = true) (hl : isBasicKey l = true) (hmajor : majorType k = majorType l)
    (hlen : (keyBytes codec k).length < (keyBytes codec l).length) :
    compare (keyBytes codec k) (keyBytes codec l) = .lt := by
  obtain ⟨n, p, hn, hkb, hp⟩ := keyBytes_of_basic hcodec hk
  obtain ⟨m, q, hm, hlb, hq⟩ := keyBytes_of_basic hcodec hl
  rw [hkb, hlb, hmajor] at hlen ⊢
  rw [hmajor] at hp
  apply headBytes_compare (majorType_lt l) _ hm
  by_contra hle
  have hhead := headBytes_length_mono (majorType l) (not_lt.1 hle) hn
  rw [List.length_append, List.length_append, hp, hq] at hlen
  split_ifs at hlen <;> omega

/-! ## The three comparisons -/

/-- A comparison that is decided alike by what comes behind it. -/
theorem then_eq_right {x y : Nat} {o : Ordering} (hlt : x < y → o = .lt)
    (hgt : y < x → o = .gt) : (compare x y).then o = o := by
  rcases Nat.lt_trichotomy x y with h | rfl | h
  · rw [Nat.compare_eq_lt.2 h, hlt h]
    rfl
  · rw [Nat.compare_eq_eq.2 rfl]
    rfl
  · rw [Nat.compare_eq_gt.2 h, hgt h]
    rfl

theorem compare_swap_of_lt {a b : Bytes} (h : compare a b = .lt) : compare b a = .gt :=
  Std.OrientedCmp.gt_iff_lt.2 h

/-- On basic keys the rule is the bytewise order. -/
theorem ctap2Compare_of_basic (hcodec : codec.Preferred) {k l : Value}
    (hk : isBasicKey k = true) (hl : isBasicKey l = true) :
    ctap2Compare codec k l = compare (keyBytes codec k) (keyBytes codec l) := by
  by_cases hmajor : majorType k = majorType l
  · have hlengths := @then_eq_right (keyBytes codec k).length (keyBytes codec l).length _
      (compare_of_length_lt hcodec hk hl hmajor)
      fun h => compare_swap_of_lt (compare_of_length_lt hcodec hl hk hmajor.symm h)
    rw [ctap2Compare, hlengths, Nat.compare_eq_eq.2 hmajor]
    rfl
  · rcases Nat.lt_or_gt_of_ne hmajor with h | h
    · rw [ctap2Compare, Nat.compare_eq_lt.2 h, compare_of_majorType_lt hcodec h]
      rfl
    · rw [ctap2Compare, Nat.compare_eq_gt.2 h,
        compare_swap_of_lt (compare_of_majorType_lt hcodec h)]
      rfl

/-- Where the lengths follow the major types, both modes compare basic keys alike: by length
first or bytewise comes to the same. -/
theorem compareKeys_of_basic (hcodec : codec.Preferred) {entries : List (Value × Value)}
    (hbasic : BasicKeys entries) (hlengths : LengthsFollowMajorTypes codec entries)
    {e f : Value × Value} (he : e ∈ entries) (hf : f ∈ entries) :
    Canon.compareKeys .ctap2 (keyBytes codec e.1) (keyBytes codec f.1) =
      Canon.compareKeys .core (keyBytes codec e.1) (keyBytes codec f.1) := by
  have hshorter {e f : Value × Value} (he : e ∈ entries) (hf : f ∈ entries)
      (h : (keyBytes codec e.1).length < (keyBytes codec f.1).length) :
      compare (keyBytes codec e.1) (keyBytes codec f.1) = .lt := by
    rcases Nat.lt_trichotomy (majorType e.1) (majorType f.1) with hmajor | hmajor | hmajor
    · exact compare_of_majorType_lt hcodec hmajor
    · exact compare_of_length_lt hcodec (hbasic e he) (hbasic f hf) hmajor h
    · have hle := hlengths f hf e he hmajor
      omega
  exact then_eq_right (hshorter he hf) fun h => compare_swap_of_lt (hshorter hf he h)

/-! ## What canonicalizing keeps -/

theorem majorType_canonicalize (v : Value) :
    majorType (canonicalize codec mode v) = majorType v := by
  cases v <;> rfl

theorem isBasicKey_canonicalize (v : Value) :
    isBasicKey (canonicalize codec mode v) = isBasicKey v := by
  cases v <;> rfl

/-- Reordering entries does not change the length of an encoding. -/
theorem keyBytes_length_canonicalize (hcodec : codec.Preferred) (v : Value) :
    (keyBytes codec (canonicalize codec mode v)).length = (keyBytes codec v).length := by
  induction v with
  | array items ih =>
      rw [canonicalize, canonicalizeItems_eq_map, hcodec.encode_array, hcodec.encode_array,
        List.length_append, List.length_append, List.length_map, List.length_flatMap,
        List.length_flatMap, List.map_map]
      congr 2
      exact List.map_congr_left ih
  | map entries ih =>
      have hsort := sortBy_perm (fun e => keyBytes codec e.1) mode.compareKeys
        (entries.map (canonicalizeEntry codec mode))
      simp only [canonicalize, canonicalizeEntries_eq_map]
      rw [hcodec.encode_map, hcodec.encode_map, List.length_append, List.length_append,
        hsort.length_eq, List.length_map, List.length_flatMap, List.length_flatMap,
        (hsort.map _).sum_eq, List.map_map]
      congr 2
      refine List.map_congr_left fun e he => ?_
      simp only [Function.comp_apply, canonicalizeEntry, List.length_append, (ih e he).1,
        (ih e he).2]
  | tag t inner ih =>
      rw [canonicalize, hcodec.encode_tag, hcodec.encode_tag, List.length_append,
        List.length_append, ih]
  | _ => rfl

theorem lengthsFollow_canonicalize (hcodec : codec.Preferred) {v : Value} :
    (canonicalize codec mode v).EveryMap (LengthsFollowMajorTypes codec) ↔
      v.EveryMap (LengthsFollowMajorTypes codec) := by
  rw [everyMap_canonicalize]
  · simp only [LengthsFollowMajorTypes, List.forall_mem_map, canonicalizeEntry,
      majorType_canonicalize, keyBytes_length_canonicalize hcodec]
    rfl
  · intro es fs hperm
    simp only [LengthsFollowMajorTypes, hperm.mem_iff]

theorem basicKeys_canonicalize {v : Value} :
    (canonicalize codec mode v).EveryMap BasicKeys ↔ v.EveryMap BasicKeys := by
  rw [everyMap_canonicalize]
  · simp only [BasicKeys, List.forall_mem_map, canonicalizeEntry, isBasicKey_canonicalize]
    rfl
  · intro es fs hperm
    simp only [BasicKeys, hperm.mem_iff]

/-! ## Where the order is the one of the rule -/

theorem le_of_then_isLE {x y : Nat} {o : Ordering} (h : ((compare x y).then o).isLE = true) :
    x ≤ y := by
  by_contra hlt
  rw [Nat.compare_eq_gt.2 (not_le.1 hlt)] at h
  cases h

/-- Entries that the `ctap2` mode has put in order stand as the rule says exactly if the
lengths follow the major types. -/
theorem ctap2Ordered_iff (hcodec : codec.Preferred) {entries : List (Value × Value)}
    (hordered : EntriesOrdered codec .ctap2 entries) :
    Ctap2Ordered codec entries ↔ LengthsFollowMajorTypes codec entries := by
  constructor
  · intro hrule
    -- A key in front is no longer and of no higher major type.
    have hlen : entries.Pairwise fun e f => majorType e.1 < majorType f.1 →
        (keyBytes codec e.1).length ≤ (keyBytes codec f.1).length := by
      refine hordered.imp fun {e f} h _ => ?_
      exact le_of_then_isLE h
    have hmajor : entries.Pairwise fun e f => majorType f.1 < majorType e.1 →
        (keyBytes codec f.1).length ≤ (keyBytes codec e.1).length := by
      refine hrule.imp fun {e f} h hlt => ?_
      exact absurd (le_of_then_isLE h) (not_le.2 hlt)
    intro e he f hf
    exact hlen.forall_of_forall_of_flip (fun _ _ h => absurd h (Nat.lt_irrefl _)) hmajor he hf
  · intro hlengths
    refine hordered.imp_of_mem fun {e f} he hf hle => ?_
    rcases Nat.lt_trichotomy (majorType e.1) (majorType f.1) with hmajor | hmajor | hmajor
    · rw [ctap2Compare, Nat.compare_eq_lt.2 hmajor]
      rfl
    · rw [ctap2Compare, Nat.compare_eq_eq.2 hmajor]
      exact hle
    · -- The key of the higher major type is as long, and bytewise it comes later.
      have hlen : (keyBytes codec e.1).length = (keyBytes codec f.1).length :=
        Nat.le_antisymm (le_of_then_isLE hle) (hlengths f hf e he hmajor)
      have hbytes := compare_swap_of_lt (compare_of_majorType_lt hcodec hmajor)
      rw [KeyLe, Canon.compareKeys, hlen, Nat.compare_eq_eq.2 rfl, hbytes] at hle
      cases hle

/-- Basic keys in bytewise order stand as the rule says, since a shorter head comes first
bytewise too. -/
theorem ctap2Ordered_of_core (hcodec : codec.Preferred) {entries : List (Value × Value)}
    (hordered : EntriesOrdered codec .core entries) (hbasic : BasicKeys entries) :
    Ctap2Ordered codec entries := by
  refine hordered.imp_of_mem fun {e f} he hf hle => ?_
  rw [ctap2Compare_of_basic hcodec (hbasic e he) (hbasic f hf)]
  exact hle

theorem canonicalize_basic {k : Value} (h : isBasicKey k = true) :
    canonicalize codec mode k = k := by
  cases k with
  | array items => cases h
  | map entries => cases h
  | tag t inner => cases h
  | _ => rfl

/-- Where the lengths follow the major types, both modes sort basic keys alike. -/
theorem canonicalize_ctap2_eq_core (hcodec : codec.Preferred) {v : Value}
    (hbasic : v.EveryMap BasicKeys) (hlengths : v.EveryMap (LengthsFollowMajorTypes codec)) :
    canonicalize codec .ctap2 v = canonicalize codec .core v := by
  induction v with
  | array items ih =>
      rw [Value.everyMap_array] at hbasic hlengths
      rw [canonicalize, canonicalize, canonicalizeItems_eq_map, canonicalizeItems_eq_map]
      congr 1
      exact List.map_congr_left fun v hv => ih v hv (hbasic v hv) (hlengths v hv)
  | map entries ih =>
      obtain ⟨hkeys, hbasic⟩ := Value.everyMap_map.1 hbasic
      obtain ⟨hfollow, hlengths⟩ := Value.everyMap_map.1 hlengths
      have hinside : entries.map (canonicalizeEntry codec .ctap2) =
          entries.map (canonicalizeEntry codec .core) := by
        refine List.map_congr_left fun e he => ?_
        rw [canonicalizeEntry, canonicalizeEntry,
          (ih e he).1 (hbasic e he).1 (hlengths e he).1,
          (ih e he).2 (hbasic e he).2 (hlengths e he).2]
      simp only [canonicalize, canonicalizeEntries_eq_map, hinside]
      rw [sortBy_map, sortBy_map, sortBy_congr]
      intro e he f hf
      simp only [canonicalizeEntry, canonicalize_basic (hkeys e he),
        canonicalize_basic (hkeys f hf)]
      exact compareKeys_of_basic hcodec hkeys hfollow he hf
  | tag t inner ih =>
      rw [Value.EveryMap] at hbasic hlengths
      rw [canonicalize, canonicalize, ih hbasic hlengths]
  | _ => rfl

theorem ctap2_ordered_iff (hcodec : codec.Preferred) {v : Value} :
    (canonicalize codec .ctap2 v).EveryMap (Ctap2Ordered codec) ↔
      v.EveryMap (LengthsFollowMajorTypes codec) := by
  have hordered := @canonicalize_ordered codec .ctap2 v
  rw [← @lengthsFollow_canonicalize codec .ctap2 hcodec]
  constructor
  · intro hrule
    exact (hordered.and hrule).imp fun _ h _ => (ctap2Ordered_iff hcodec h.1).1 h.2
  · intro hlengths
    exact (hordered.and hlengths).imp fun _ h _ => (ctap2Ordered_iff hcodec h.1).2 h.2

/-- The `ctap2` mode produces the order of CTAP2 if and only if in every map the keys of a
lower major type are no longer than those of a higher one, and where all keys are basic
exactly then it produces what the `core` mode does. -/
theorem ctap2_order_iff (hcodec : codec.Preferred) (v : Value) :
    ((canonicalize codec .ctap2 v).EveryMap (Ctap2Ordered codec) ↔
      v.EveryMap (LengthsFollowMajorTypes codec)) ∧
    (v.EveryMap BasicKeys →
      (canonicalize codec .ctap2 v = canonicalize codec .core v ↔
        v.EveryMap (LengthsFollowMajorTypes codec))) := by
  refine ⟨ctap2_ordered_iff hcodec, fun hbasic => ⟨fun hsame => ?_, ?_⟩⟩
  · rw [← ctap2_ordered_iff hcodec, hsame]
    have hordered := @canonicalize_ordered codec .core v
    have hkeys := (@basicKeys_canonicalize codec .core v).2 hbasic
    exact (hordered.and hkeys).imp fun _ h _ => ctap2Ordered_of_core hcodec h.1 h.2
  · exact canonicalize_ctap2_eq_core hcodec hbasic

/-! ## Concrete maps -/

theorem Definite.encodeItems_eq_flatMap (items : List Value) :
    encodeItems items = items.flatMap (keyBytes Definite.codec) := by
  induction items with
  | nil => rfl
  | cons v vs ih =>
      rw [encodeItems, ih, List.flatMap_cons]
      rfl

theorem Definite.encodeEntries_eq_flatMap (entries : List (Value × Value)) :
    encodeEntries entries =
      entries.flatMap fun e => keyBytes Definite.codec e.1 ++ keyBytes Definite.codec e.2 := by
  induction entries with
  | nil => rfl
  | cons e es ih =>
      rw [encodeEntries, ih, List.flatMap_cons, List.append_assoc]
      rfl

theorem Definite.codec_preferred : Definite.codec.Preferred where
  encode_null := rfl
  encode_bool _ := rfl
  encode_integer _ := rfl
  encode_float _ := ⟨27, _, by decide, by decide, rfl⟩
  encode_text _ := rfl
  encode_bytes _ := rfl
  encode_array items := congrArg _ (encodeItems_eq_flatMap items)
  encode_map entries := congrArg _ (encodeEntries_eq_flatMap entries)
  encode_tag _ _ := rfl

/-- A label of one byte. -/
def smallLabel : Integer := Integer.ofI64 (I64.wrap 3)

/-- A label of two bytes. -/
def largeLabel : Integer := Integer.ofI64 (I64.wrap 24)

/-- A negative label of one byte. -/
def negativeLabel : Integer := Integer.ofI64 (I64.wrap (-1))

/-- A map with labels of one byte. -/
def shortLabels : Value := .map [(.integer negativeLabel, .null), (.integer smallLabel, .null)]

theorem ctap2_order_iff_shortLabels :
    canonicalize Definite.codec .ctap2 shortLabels =
      canonicalize Definite.codec .core shortLabels := by
  have horder := ctap2_order_iff Definite.codec_preferred shortLabels
  refine (horder.2 ?_).2 ?_
  · simp [shortLabels, Value.EveryMap, BasicKeys, isBasicKey]
  · refine Value.everyMap_map.2 ⟨?_, by simp [Value.EveryMap]⟩
    unfold LengthsFollowMajorTypes
    decide

/-- A map with a label of two bytes in front of a negative one. -/
def mixedLabels : Value := .map [(.integer largeLabel, .null), (.integer negativeLabel, .null)]

/-- The same entries with the negative label in front. -/
def shorterFirst : List (Value × Value) :=
  [(.integer negativeLabel, .null), (.integer largeLabel, .null)]

/-- The `ctap2` mode moves the negative label to the front, where CTAP2 and the `core` mode
leave it behind the other. -/
theorem ctap2_mode_misorders :
    canonicalize Definite.codec .ctap2 mixedLabels = .map shorterFirst ∧
      ¬ Ctap2Ordered Definite.codec shorterFirst ∧
      canonicalize Definite.codec .core mixedLabels = mixedLabels := by
  refine ⟨rfl, ?_, rfl⟩
  unfold Ctap2Ordered
  decide

end VgiCbor
