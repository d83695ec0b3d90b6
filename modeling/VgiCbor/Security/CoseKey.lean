import VgiCbor.Security.Registry

/-!
# COSE_Key

`decodeValue` reads a COSE_Key map in one pass over its entries.  What labels `-1`, `-2`
and `-3` mean depends on the key type, so the pass reads them by the key type seen so
far, and a second pass repairs a modulus that came first.  It repairs neither an exponent
that came first nor what the first pass took for a curve and coordinates
(`entry_order_irrelevant_iff`).
-/

namespace VgiCbor.CoseKey

open MachineInt LabelScan Security

/-- A decoded COSE_Key. -/
@[ext]
structure CoseKeyInfo where
  kty : Option String
  kid : Option Bytes
  alg : Option String
  crv : Option String
  x : Option Bytes
  y : Option Bytes
  n : Option Bytes
  e : Option Bytes
  deriving DecidableEq

/-- `CoseKeyInfo::default()` -/
def CoseKeyInfo.default : CoseKeyInfo := ⟨none, none, none, none, none, none, none, none⟩

/-- The key type is RSA.  It is a test of the type that was seen so far. -/
def isRsa (ktyId : Option I64) : Bool := ktyId.map Ranged.val == some 3

/-- One entry of the first pass.  The state is the key type seen so far, and the key. -/
def scanEntry : Option I64 × CoseKeyInfo → Value × Value → Option I64 × CoseKeyInfo
  | (ktyId, key), (k, v) =>
      match label (k, v) with
      | some 1 => (asInt v, { key with kty := (asInt v).map ktyName })
      | some 2 => (ktyId, { key with kid := asBytes v })
      | some 3 => (ktyId, { key with alg := (asInt v).map algName })
      | some (-1) =>
          -- The curve of an EC key is the modulus of an RSA one.
          if isRsa ktyId then (ktyId, { key with n := asBytes v })
          else (ktyId, { key with crv := (asInt v).map crvName })
      | some (-2) =>
          if isRsa ktyId then (ktyId, { key with e := asBytes v })
          else (ktyId, { key with x := asBytes v })
      | some (-3) => if isRsa ktyId then (ktyId, key) else (ktyId, { key with y := asBytes v })
      | _ => (ktyId, key)

/-- One entry of the second pass, which reads the two labels of an RSA key again. -/
def rescanEntry (key : CoseKeyInfo) : Value × Value → CoseKeyInfo
  | (k, v) =>
      match label (k, v) with
      | some (-1) => { key with n := asBytes v }
      | some (-2) => { key with e := asBytes v }
      | _ => key

/-- Read the entries of a COSE_Key.  The second pass runs only if an RSA key has got no
modulus in the first. -/
def decodeEntries (entries : List (Value × Value)) : CoseKeyInfo :=
  let (ktyId, key) := entries.foldl scanEntry (none, CoseKeyInfo.default)
  if isRsa ktyId && key.n.isNone then entries.foldl rescanEntry key else key

/-- Decode a COSE_Key from an already-parsed value. -/
def decodeValue : Value → Except DecodeError CoseKeyInfo
  | .map entries => .ok (decodeEntries entries)
  | _ => .error (.structural "COSE_Key is not a map")

/-- Decode a COSE_Key blob. -/
def coseKey (codec : CborCodec) (bytes : Bytes) : Except DecodeError CoseKeyInfo :=
  (parse codec bytes).bind decodeValue

/-! ## What a key map holds -/

/-- The integer under a label. -/
def intUnder (l : Int) (entries : List (Value × Value)) : Option I64 := (under l entries).bind asInt

/-- The byte string under a label. -/
def bytesUnder (l : Int) (entries : List (Value × Value)) : Option Bytes :=
  (under l entries).bind asBytes

/-- The key is an RSA key. -/
def IsRsa (entries : List (Value × Value)) : Prop := isRsa (intUnder 1 entries) = true

/-! ## The first pass -/

/-- What an entry does to the key while the key type is `ktyId`. -/
def keyStep (ktyId : Option I64) (key : CoseKeyInfo) (entry : Value × Value) : CoseKeyInfo :=
  (scanEntry (ktyId, key) entry).2

/-- What an entry sets, field by field.  All that is said of the first pass is read off this. -/
theorem scanEntry_eq (ktyId : Option I64) (key : CoseKeyInfo) (entry : Value × Value) :
    scanEntry (ktyId, key) entry =
      (if hasLabel 1 entry then asInt entry.2 else ktyId,
        { kty := if hasLabel 1 entry then (asInt entry.2).map ktyName else key.kty
          kid := if hasLabel 2 entry then asBytes entry.2 else key.kid
          alg := if hasLabel 3 entry then (asInt entry.2).map algName else key.alg
          crv := if hasLabel (-1) entry && !isRsa ktyId then (asInt entry.2).map crvName
            else key.crv
          x := if hasLabel (-2) entry && !isRsa ktyId then asBytes entry.2 else key.x
          y := if hasLabel (-3) entry && !isRsa ktyId then asBytes entry.2 else key.y
          n := if hasLabel (-1) entry && isRsa ktyId then asBytes entry.2 else key.n
          e := if hasLabel (-2) entry && isRsa ktyId then asBytes entry.2 else key.e }) := by
  obtain ⟨k, v⟩ := entry
  rw [scanEntry]
  split
  case h_1 hkty => simp only [hasLabel_of hkty]; rfl
  case h_2 hkid => simp only [hasLabel_of hkid]; rfl
  case h_3 halg => simp only [hasLabel_of halg]; rfl
  case h_4 hfirst => simp only [hasLabel_of hfirst]; cases isRsa ktyId <;> rfl
  case h_5 hsecond => simp only [hasLabel_of hsecond]; cases isRsa ktyId <;> rfl
  case h_6 hthird => simp only [hasLabel_of hthird]; cases isRsa ktyId <;> rfl
  case h_7 hkty hkid halg hfirst hsecond hthird =>
    simp only [hasLabel_of_ne hkty, hasLabel_of_ne hkid, hasLabel_of_ne halg,
      hasLabel_of_ne hfirst, hasLabel_of_ne hsecond, hasLabel_of_ne hthird]
    rfl

theorem scanEntry_fst (state : Option I64 × CoseKeyInfo) (entry : Value × Value) :
    (scanEntry state entry).1 = if hasLabel 1 entry then asInt entry.2 else state.1 := by
  rw [scanEntry_eq]

/-- The key type is recorded with its name. -/
theorem scanEntry_kty (state : Option I64 × CoseKeyInfo) {entry : Value × Value}
    (h : hasLabel 1 entry = true) :
    scanEntry state entry =
      (asInt entry.2, { state.2 with kty := (asInt entry.2).map ktyName }) := by
  obtain ⟨ktyId, key⟩ := state
  obtain ⟨k, v⟩ := entry
  simp only [hasLabel, beq_iff_eq] at h
  simp only [scanEntry, h]

/-- An entry only asks whether the key type is RSA. -/
theorem scanEntry_snd {state : Option I64 × CoseKeyInfo} {ktyId : Option I64}
    (h : isRsa state.1 = isRsa ktyId) (entry : Value × Value) :
    (scanEntry state entry).2 = keyStep ktyId state.2 entry := by
  rw [keyStep, scanEntry_eq, scanEntry_eq, h]

/-- While the key type stays RSA, or stays something else, the pass is one loop over the
key. -/
theorem scan_snd {entries : List (Value × Value)} {ktyId : Option I64}
    (hentries : ∀ entry ∈ entries, hasLabel 1 entry = true → isRsa (asInt entry.2) = isRsa ktyId)
    {state : Option I64 × CoseKeyInfo} (hstate : isRsa state.1 = isRsa ktyId) :
    (entries.foldl scanEntry state).2 = entries.foldl (keyStep ktyId) state.2 := by
  induction entries generalizing state with
  | nil => rfl
  | cons entry entries ih =>
      obtain ⟨hentry, hentries⟩ := List.forall_mem_cons.1 hentries
      rw [List.foldl_cons, List.foldl_cons, ← scanEntry_snd hstate]
      apply ih hentries
      rw [scanEntry_fst]
      by_cases h : hasLabel 1 entry = true
      · rw [if_pos h, hentry h]
      · rw [if_neg h, hstate]

/-- The fields that are read from one label whatever the key type. -/
theorem scan_common (entries : List (Value × Value)) (state : Option I64 × CoseKeyInfo) :
    (entries.foldl scanEntry state).1 = ((under 1 entries).map asInt).getD state.1 ∧
      (entries.foldl scanEntry state).2.kty =
        ((under 1 entries).map fun v => (asInt v).map ktyName).getD state.2.kty ∧
      (entries.foldl scanEntry state).2.kid = ((under 2 entries).map asBytes).getD state.2.kid ∧
      (entries.foldl scanEntry state).2.alg =
        ((under 3 entries).map fun v => (asInt v).map algName).getD state.2.alg := by
  simp only [under, Option.map_map]
  refine ⟨foldl_field (p := hasLabel 1) Prod.fst _ scanEntry_fst state entries,
    foldl_field (p := hasLabel 1) (fun s => s.2.kty) _ ?_ state entries,
    foldl_field (p := hasLabel 2) (fun s => s.2.kid) _ ?_ state entries,
    foldl_field (p := hasLabel 3) (fun s => s.2.alg) _ ?_ state entries⟩
  all_goals
    rintro ⟨ktyId, key⟩ entry
    rw [scanEntry_eq]
    rfl

/-- Unless the key type is RSA, the negative labels are the curve and its coordinates, and
nothing sets the modulus or the exponent. -/
theorem scan_ec {entries : List (Value × Value)} {state : Option I64 × CoseKeyInfo}
    (hentries : ∀ entry ∈ entries, hasLabel 1 entry = true → isRsa (asInt entry.2) = false)
    (hstate : isRsa state.1 = false) :
    (entries.foldl scanEntry state).2.crv =
        ((under (-1) entries).map fun v => (asInt v).map crvName).getD state.2.crv ∧
      (entries.foldl scanEntry state).2.x = ((under (-2) entries).map asBytes).getD state.2.x ∧
      (entries.foldl scanEntry state).2.y = ((under (-3) entries).map asBytes).getD state.2.y ∧
      (entries.foldl scanEntry state).2.n = state.2.n ∧
      (entries.foldl scanEntry state).2.e = state.2.e := by
  rw [scan_snd (fun entry hmem h => (hentries entry hmem h).trans hstate.symm) rfl]
  simp only [under, Option.map_map]
  refine ⟨foldl_field (p := hasLabel (-1)) CoseKeyInfo.crv _ ?_ state.2 entries,
    foldl_field (p := hasLabel (-2)) CoseKeyInfo.x _ ?_ state.2 entries,
    foldl_field (p := hasLabel (-3)) CoseKeyInfo.y _ ?_ state.2 entries,
    foldl_const CoseKeyInfo.n ?_ state.2 entries, foldl_const CoseKeyInfo.e ?_ state.2 entries⟩
  all_goals
    intro key entry
    rw [keyStep, scanEntry_eq, hstate]
    simp only [Bool.not_false, Bool.and_true, Bool.and_false, Bool.false_eq_true, if_false,
      Function.comp]

/-- Of an RSA key the negative labels are the modulus and the exponent, once its type has been
seen. -/
theorem scan_rsa {entries : List (Value × Value)} {state : Option I64 × CoseKeyInfo}
    (hentries : ∀ entry ∈ entries, hasLabel 1 entry = true → isRsa (asInt entry.2) = true)
    (hstate : isRsa state.1 = true) :
    (entries.foldl scanEntry state).2.n = ((under (-1) entries).map asBytes).getD state.2.n ∧
      (entries.foldl scanEntry state).2.e = ((under (-2) entries).map asBytes).getD state.2.e ∧
      (entries.foldl scanEntry state).2.crv = state.2.crv ∧
      (entries.foldl scanEntry state).2.x = state.2.x ∧
      (entries.foldl scanEntry state).2.y = state.2.y := by
  rw [scan_snd (fun entry hmem h => (hentries entry hmem h).trans hstate.symm) rfl]
  simp only [under, Option.map_map]
  refine ⟨foldl_field (p := hasLabel (-1)) CoseKeyInfo.n _ ?_ state.2 entries,
    foldl_field (p := hasLabel (-2)) CoseKeyInfo.e _ ?_ state.2 entries,
    foldl_const CoseKeyInfo.crv ?_ state.2 entries, foldl_const CoseKeyInfo.x ?_ state.2 entries,
    foldl_const CoseKeyInfo.y ?_ state.2 entries⟩
  all_goals
    intro key entry
    rw [keyStep, scanEntry_eq, hstate]
    simp only [Bool.not_true, Bool.and_true, Bool.and_false, Bool.false_eq_true, if_false,
      Function.comp]

/-! ## Both passes -/

theorem getD_bytes (l : Int) (entries : List (Value × Value)) :
    ((under l entries).map asBytes).getD none = bytesUnder l entries := by
  rw [bytesUnder]
  cases under l entries <;> rfl

theorem getD_name (l : Int) (entries : List (Value × Value)) (name : I64 → String) :
    ((under l entries).map fun v => (asInt v).map name).getD none =
      (intUnder l entries).map name := by
  rw [intUnder]
  cases under l entries <;> rfl

/-- The second pass sets the modulus and the exponent only. -/
theorem rescanEntry_eq (key : CoseKeyInfo) (entry : Value × Value) :
    rescanEntry key entry =
      { key with
        n := if hasLabel (-1) entry then asBytes entry.2 else key.n
        e := if hasLabel (-2) entry then asBytes entry.2 else key.e } := by
  obtain ⟨k, v⟩ := entry
  rw [rescanEntry]
  split
  case h_1 hmodulus => simp only [hasLabel_of hmodulus]; rfl
  case h_2 hexponent => simp only [hasLabel_of hexponent]; rfl
  case h_3 hmodulus hexponent =>
    simp only [hasLabel_of_ne hmodulus, hasLabel_of_ne hexponent]
    rfl

/-- The second pass reads the modulus and the exponent, and nothing else. -/
theorem rescan (entries : List (Value × Value)) (key : CoseKeyInfo) :
    entries.foldl rescanEntry key =
      { key with
        n := ((under (-1) entries).map asBytes).getD key.n
        e := ((under (-2) entries).map asBytes).getD key.e } := by
  simp only [under, Option.map_map]
  apply CoseKeyInfo.ext
  case n =>
      refine foldl_field (p := hasLabel (-1)) CoseKeyInfo.n _ ?_ key entries
      intro key entry
      rw [rescanEntry_eq]
      rfl
  case e =>
      refine foldl_field (p := hasLabel (-2)) CoseKeyInfo.e _ ?_ key entries
      intro key entry
      rw [rescanEntry_eq]
      rfl
  all_goals
    refine foldl_const _ ?_ key entries
    intro key entry
    rw [rescanEntry_eq]

/-- A key of another type is read label by label. -/
theorem decodeEntries_ec {entries : List (Value × Value)}
    (h : ∀ entry ∈ entries, hasLabel 1 entry = true → isRsa (asInt entry.2) = false) :
    decodeEntries entries =
      ⟨(intUnder 1 entries).map ktyName, bytesUnder 2 entries, (intUnder 3 entries).map algName,
        (intUnder (-1) entries).map crvName, bytesUnder (-2) entries, bytesUnder (-3) entries,
        none, none⟩ := by
  obtain ⟨hid, hkty, hkid, halg⟩ := scan_common entries (none, CoseKeyInfo.default)
  have hnot : isRsa (entries.foldl scanEntry (none, CoseKeyInfo.default)).1 = false := by
    rw [hid]
    cases hunder : last? (hasLabel 1) entries with
    | none => rw [under, hunder]; rfl
    | some entry =>
        obtain ⟨hmem, hlabel⟩ := last?_some hunder
        rw [under, hunder]
        exact h entry hmem hlabel
  have hstart : isRsa ((none, CoseKeyInfo.default) : Option I64 × CoseKeyInfo).1 = false := rfl
  obtain ⟨hcrv, hx, hy, hn, he⟩ := scan_ec h hstart
  rw [decodeEntries]
  generalize entries.foldl scanEntry (none, CoseKeyInfo.default) = result at *
  obtain ⟨ktyId, key⟩ := result
  simp only [hnot, Bool.false_and, Bool.false_eq_true, if_false]
  obtain ⟨kty, kid, alg, crv, x, y, n, e⟩ := key
  simp only [CoseKeyInfo.default, getD_name, getD_bytes] at hkty hkid halg hcrv hx hy hn he
  subst hkty hkid halg hcrv hx hy hn he
  rfl

/-- An entry with one label has no other. -/
theorem hasLabel_other {entry : Value × Value} {l m : Int} (h : hasLabel l entry = true)
    (hne : l ≠ m) : hasLabel m entry = false := by
  simp only [hasLabel, beq_iff_eq, beq_eq_false_iff_ne] at h ⊢
  rw [h]
  simpa using hne

theorem under_split {entry : Value × Value} (hentry : hasLabel 1 entry = true) {l : Int}
    (hne : 1 ≠ l) (front back : List (Value × Value)) :
    under l (front ++ entry :: back) = (under l back).or (under l front) := by
  rw [under_append]
  simp only [under, last?_cons, hasLabel_other hentry hne, Bool.false_eq_true, if_false, Option.or_none]

/-- Where the label is missing behind the entry, it may stand before it. -/
theorem getD_split {entry : Value × Value} (hentry : hasLabel 1 entry = true) {l : Int}
    (hne : 1 ≠ l) (front back : List (Value × Value)) :
    ((under l (front ++ entry :: back)).map asBytes).getD (bytesUnder l back) =
      bytesUnder l (front ++ entry :: back) := by
  simp only [bytesUnder, under_split hentry hne]
  cases under l back with
  | some v => rfl
  | none => cases under l front <;> rfl

/-- An RSA key is read as another key up to its key type, and as an RSA key behind it.  The
modulus ends up right; the exponent is only read again when the modulus came first. -/
theorem decodeEntries_rsa {front back : List (Value × Value)} {entry : Value × Value}
    (hentry : hasLabel 1 entry = true) (hrsa : isRsa (asInt entry.2) = true)
    (hfront : ∀ a ∈ front, hasLabel 1 a = false) (hback : ∀ a ∈ back, hasLabel 1 a = false) :
    decodeEntries (front ++ entry :: back) =
      ⟨(intUnder 1 (front ++ entry :: back)).map ktyName,
        bytesUnder 2 (front ++ entry :: back),
        (intUnder 3 (front ++ entry :: back)).map algName,
        (intUnder (-1) front).map crvName, bytesUnder (-2) front, bytesUnder (-3) front,
        bytesUnder (-1) (front ++ entry :: back),
        if (bytesUnder (-1) back).isSome then bytesUnder (-2) back
        else bytesUnder (-2) (front ++ entry :: back)⟩ := by
  obtain ⟨hid, hkty, hkid, halg⟩ :=
    scan_common (front ++ entry :: back) (none, CoseKeyInfo.default)
  have hstart : isRsa ((none, CoseKeyInfo.default) : Option I64 × CoseKeyInfo).1 = false := rfl
  have hec : ∀ a ∈ front, hasLabel 1 a = true → isRsa (asInt a.2) = false :=
    fun a ha h => absurd h (by simp [hfront a ha])
  have hrsa_back : ∀ a ∈ back, hasLabel 1 a = true → isRsa (asInt a.2) = true :=
    fun a ha h => absurd h (by simp [hback a ha])
  obtain ⟨hcrv, hx, hy, hn, he⟩ := scan_ec hec hstart
  -- The key type changes at the entry, and of the key only the name of its type.
  generalize hfirst : front.foldl scanEntry (none, CoseKeyInfo.default) = first at hcrv hx hy hn he
  have hturn := scanEntry_kty first hentry
  obtain ⟨hn', he', hcrv', hx', hy'⟩ := scan_rsa hrsa_back
    (show isRsa (scanEntry first entry).1 = true by rw [hturn, hrsa])
  rw [decodeEntries]
  have hrun : (front ++ entry :: back).foldl scanEntry (none, CoseKeyInfo.default) =
      back.foldl scanEntry (scanEntry first entry) := by
    rw [List.foldl_append, List.foldl_cons, hfirst]
  rw [hrun] at hid hkty hkid halg ⊢
  have hid' : isRsa (back.foldl scanEntry (scanEntry first entry)).1 = true := by
    have hnone : last? (hasLabel 1) back = none := last?_eq_none_iff.2 hback
    rw [hid, under, last?_append, last?_cons, hnone, Option.none_or, if_pos hentry]
    exact hrsa
  generalize back.foldl scanEntry (scanEntry first entry) = result at *
  obtain ⟨ktyId, kty, kid, alg, crv, x, y, n, e⟩ := result
  simp only [hturn, hcrv, hx, hy, hn, he, CoseKeyInfo.default, getD_name, getD_bytes] at *
  subst hkty hkid halg hcrv' hx' hy' hn' he'
  simp only [hid', Bool.true_and]
  cases hmodulus : bytesUnder (-1) back with
  | some modulus =>
      have hn : bytesUnder (-1) (front ++ entry :: back) = some modulus := by
        rw [← hmodulus]
        simp only [bytesUnder] at hmodulus ⊢
        obtain ⟨v, hv, -⟩ := Option.bind_eq_some_iff.1 hmodulus
        rw [under_split hentry (by decide), hv, Option.some_or]
      rw [hn]
      rfl
  | none =>
      rw [Option.isNone_none, if_pos rfl, rescan]
      simp only [getD_bytes, getD_split hentry (show (1 : Int) ≠ -2 by decide)]
      rfl

/-! ## Entry order -/

/-- The order of the entries does not matter, and an RSA key has a modulus and an exponent
but no curve and no coordinates. -/
structure OrderIrrelevant (entries : List (Value × Value)) : Prop where
  same : ∀ entries', entries'.Perm entries →
    decodeValue (.map entries') = decodeValue (.map entries)
  rsa : IsRsa entries → ∀ entries', entries'.Perm entries →
    ∃ key, decodeValue (.map entries') = .ok key ∧ key.n = bytesUnder (-1) entries ∧
      key.e = bytesUnder (-2) entries ∧ key.crv = none ∧ key.x = none ∧ key.y = none

/-- The entry with the key type of an RSA key, and what stands before and behind it.  In a map
with distinct keys there is one. -/
theorem split_rsa {entries : List (Value × Value)} (hdistinct : (entries.map Prod.fst).Nodup)
    (hrsa : IsRsa entries) :
    ∃ front entry back, entries = front ++ entry :: back ∧ hasLabel 1 entry = true ∧
      isRsa (asInt entry.2) = true ∧ (∀ a ∈ front, hasLabel 1 a = false) ∧
      ∀ a ∈ back, hasLabel 1 a = false := by
  have hunique := unique_of_nodup hdistinct 1
  rw [IsRsa, intUnder, under] at hrsa
  cases hlast : last? (hasLabel 1) entries with
  | none =>
      rw [hlast] at hrsa
      cases hrsa
  | some entry =>
      obtain ⟨hmem, hentry⟩ := last?_some hlast
      obtain ⟨front, back, rfl⟩ := List.append_of_mem hmem
      obtain ⟨-, hbehind, hacross⟩ := List.pairwise_append.1 hunique
      rw [hlast] at hrsa
      refine ⟨front, entry, back, rfl, hentry, hrsa, ?_, ?_⟩
      · intro a ha
        by_contra h
        rw [Bool.not_eq_false] at h
        exact hacross a ha entry List.mem_cons_self ⟨h, hentry⟩
      · intro a ha
        by_contra h
        rw [Bool.not_eq_false] at h
        exact (List.pairwise_cons.1 hbehind).1 a ha ⟨hentry, h⟩

/-- Reading under a label is the same in every order. -/
theorem read_perm {entries entries' : List (Value × Value)}
    (h : (entries.map Prod.fst).Nodup) (hperm : entries'.Perm entries) (l : Int) :
    intUnder l entries' = intUnder l entries ∧ bytesUnder l entries' = bytesUnder l entries := by
  rw [intUnder, bytesUnder, under_perm h hperm l]
  exact ⟨rfl, rfl⟩

theorem nodup_perm {entries entries' : List (Value × Value)}
    (h : (entries.map Prod.fst).Nodup) (hperm : entries'.Perm entries) :
    (entries'.map Prod.fst).Nodup :=
  (hperm.map Prod.fst).nodup_iff.2 h

/-- What a part of the map holds under a label, the map holds. -/
theorem under_part {entries part : List (Value × Value)} {l : Int}
    (hunique : Unique (hasLabel l) entries) (hpart : ∀ a ∈ part, a ∈ entries) {v : Value}
    (h : under l part = some v) : under l entries = some v := by
  obtain ⟨entry, hlast, rfl⟩ := Option.map_eq_some_iff.1 h
  obtain ⟨hmem, hlabel⟩ := last?_some hlast
  rw [under, (last?_eq_some_iff hunique).2 ⟨hpart entry hmem, hlabel⟩]
  rfl

theorem read_part {β : Type} {entries part : List (Value × Value)} {l : Int}
    (hunique : Unique (hasLabel l) entries) (hpart : ∀ a ∈ part, a ∈ entries)
    {f : Value → Option β} (h : (under l entries).bind f = none) :
    (under l part).bind f = none := by
  cases hunder : under l part with
  | none => rfl
  | some v =>
      rw [under_part hunique hpart hunder] at h
      exact h

/-- An RSA key whose negative labels mean nothing for other key types.  What the first pass
misread is then nothing, in any order. -/
theorem decodeEntries_rsa_clean {entries : List (Value × Value)}
    (hdistinct : (entries.map Prod.fst).Nodup) (hrsa : IsRsa entries)
    (hcrv : intUnder (-1) entries = none) (hx : bytesUnder (-2) entries = none)
    (hy : bytesUnder (-3) entries = none) :
    decodeEntries entries =
      ⟨(intUnder 1 entries).map ktyName, bytesUnder 2 entries, (intUnder 3 entries).map algName,
        none, none, none, bytesUnder (-1) entries, none⟩ := by
  obtain ⟨front, entry, back, rfl, hentry, hid, hfront, hback⟩ := split_rsa hdistinct hrsa
  have hunique := unique_of_nodup hdistinct
  have hpart : ∀ a ∈ front, a ∈ front ++ entry :: back :=
    fun a ha => List.mem_append_left _ ha
  have hpart' : ∀ a ∈ back, a ∈ front ++ entry :: back :=
    fun a ha => List.mem_append_right _ (List.mem_cons_of_mem entry ha)
  have hcrv' : intUnder (-1) front = none := read_part (hunique _) hpart hcrv
  have hx' : bytesUnder (-2) front = none := read_part (hunique _) hpart hx
  have hy' : bytesUnder (-3) front = none := read_part (hunique _) hpart hy
  have he' : bytesUnder (-2) back = none := read_part (hunique _) hpart' hx
  rw [decodeEntries_rsa hentry hid hfront hback, hcrv', hx', hy', he', hx, ite_self]
  rfl

/-- The entry with the key type of a key of another type. -/
theorem not_rsa_entry {entries : List (Value × Value)}
    (hdistinct : (entries.map Prod.fst).Nodup) (hrsa : ¬ IsRsa entries) :
    ∀ entry ∈ entries, hasLabel 1 entry = true → isRsa (asInt entry.2) = false := by
  intro entry hmem hentry
  rw [IsRsa, intUnder, under,
    (last?_eq_some_iff (unique_of_nodup hdistinct 1)).2 ⟨hmem, hentry⟩, Bool.not_eq_true] at hrsa
  exact hrsa

/-- The order of the entries of a key does not matter unless it is an RSA key whose label
`-1` is an integer, or whose label `-2` or `-3` is a byte string. -/
theorem entry_order_irrelevant_iff {entries : List (Value × Value)}
    (hdistinct : (entries.map Prod.fst).Nodup) :
    OrderIrrelevant entries ↔
      (IsRsa entries → intUnder (-1) entries = none ∧ bytesUnder (-2) entries = none ∧
        bytesUnder (-3) entries = none) := by
  constructor
  · rintro ⟨-, hfields⟩ hrsa
    obtain ⟨front, entry, back, rfl, hentry, hid, hfront, hback⟩ := split_rsa hdistinct hrsa
    -- In the order with the key type last, all of the key is read as that of another type.
    have hperm : ((front ++ back) ++ [entry]).Perm (front ++ entry :: back) := by
      rw [List.append_assoc]
      exact (List.perm_append_singleton entry back).append_left front
    have hbefore : ∀ a ∈ front ++ back, hasLabel 1 a = false := by
      intro a ha
      rcases List.mem_append.1 ha with ha | ha
      · exact hfront a ha
      · exact hback a ha
    have hlast (l : Int) (hne : 1 ≠ l) : under l ((front ++ back) ++ [entry]) =
        under l (front ++ back) := by
      rw [under_split hentry hne]
      rfl
    have hread := read_perm hdistinct hperm
    obtain ⟨key, hkey, -, -, hcrv, hx, hy⟩ := hfields hrsa _ hperm
    cases hkey
    rw [decodeEntries_rsa hentry hid hbefore (by simp)] at hcrv hx hy
    rw [← (hread (-1)).1, ← (hread (-2)).2, ← (hread (-3)).2]
    simp only [intUnder, bytesUnder, hlast _ (show (1 : Int) ≠ -1 by decide),
      hlast _ (show (1 : Int) ≠ -2 by decide), hlast _ (show (1 : Int) ≠ -3 by decide)]
    exact ⟨Option.map_eq_none_iff.1 hcrv, hx, hy⟩
  · intro hclean
    by_cases hrsa : IsRsa entries
    · obtain ⟨hcrv, hx, hy⟩ := hclean hrsa
      have hdecode (entries' : List (Value × Value)) (hperm : entries'.Perm entries) :
          decodeEntries entries' = ⟨(intUnder 1 entries).map ktyName, bytesUnder 2 entries,
            (intUnder 3 entries).map algName, none, none, none, bytesUnder (-1) entries, none⟩ := by
        have hread := read_perm hdistinct hperm
        have hrsa' : IsRsa entries' := by rwa [IsRsa, (hread 1).1]
        rw [decodeEntries_rsa_clean (nodup_perm hdistinct hperm) hrsa'
          ((hread _).1.trans hcrv) ((hread _).2.trans hx) ((hread _).2.trans hy)]
        simp only [(hread _).1, (hread _).2]
      constructor
      · intro entries' hperm
        rw [decodeValue, decodeValue, hdecode entries' hperm, hdecode entries (List.Perm.refl _)]
      · intro _ entries' hperm
        exact ⟨_, rfl, by rw [hdecode entries' hperm]; exact ⟨rfl, hx.symm, rfl, rfl, rfl⟩⟩
    · constructor
      · intro entries' hperm
        have hread := read_perm hdistinct hperm
        have hrsa' : ¬ IsRsa entries' := by rwa [IsRsa, (hread 1).1]
        rw [decodeValue, decodeValue,
          decodeEntries_ec (not_rsa_entry (nodup_perm hdistinct hperm) hrsa'),
          decodeEntries_ec (not_rsa_entry hdistinct hrsa)]
        simp only [(hread _).1, (hread _).2]
      · exact fun h => absurd h hrsa

/-- The entries of a key with the given type, under label 1, and the values under `-1` and
`-2`. -/
def sampleKey (kty : Integer) (first second : Value) : List (Value × Value) :=
  [(.integer (smallInt 1), .integer kty),
    (.integer (smallInt (-1)), first), (.integer (smallInt (-2)), second)]

theorem sampleKey_nodup (kty : Integer) (first second : Value) :
    ((sampleKey kty first second).map Prod.fst).Nodup := by
  have hdistinct : [smallInt 1, smallInt (-1), smallInt (-2)].Nodup := by decide
  have hinj : Function.Injective Value.integer := fun _ _ h => Value.integer.inj h
  have hkeys := hdistinct.map hinj
  exact hkeys

/-- An elliptic curve key is the same in every order. -/
theorem entry_order_irrelevant_ec2 :
    OrderIrrelevant (sampleKey (smallInt 2) (.integer (smallInt 1)) (.bytes [7])) :=
  (entry_order_irrelevant_iff (sampleKey_nodup _ _ _)).2 fun h => by cases h

/-- An RSA key with its exponent before its type and its modulus behind has no exponent, but
an x-coordinate. -/
theorem exponent_misread :
    ((sampleKey (smallInt 3) (.bytes [187]) (.bytes [1, 0, 1])).map Prod.fst).Nodup ∧
      decodeValue (.map [(.integer (smallInt (-2)), .bytes [1, 0, 1]),
          (.integer (smallInt 1), .integer (smallInt 3)),
          (.integer (smallInt (-1)), .bytes [187])]) =
        .ok ⟨some "RSA", none, none, none, some [1, 0, 1], none, some [187], none⟩ ∧
      ¬ OrderIrrelevant (sampleKey (smallInt 3) (.bytes [187]) (.bytes [1, 0, 1])) := by
  refine ⟨sampleKey_nodup _ _ _, rfl, fun h => ?_⟩
  -- The exponent has moved to the front.
  have hperm : [(Value.integer (smallInt (-2)), Value.bytes [1, 0, 1]),
      (.integer (smallInt 1), .integer (smallInt 3)),
      (.integer (smallInt (-1)), .bytes [187])].Perm
      (sampleKey (smallInt 3) (.bytes [187]) (.bytes [1, 0, 1])) :=
    @List.perm_append_comm _ [_] [_, _]
  have heq := h.same _ hperm
  cases heq

end VgiCbor.CoseKey
