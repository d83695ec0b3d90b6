import VgiCbor.Core.Instants

/-!
# Crossing to MessagePack and back

MessagePack mirrors three of CBOR's tags and drops the others, and its integers end at
the 64-bit range.  `carried` is what comes back.  Within that range it is `erase`, which
says tag by tag what is kept (`carried_eq_erase`); what has crossed once crosses again
unchanged (`carried_idempotent`).
-/

namespace VgiCbor.MsgpackWire

open MachineInt Binary64

/-- What a MessagePack file gives back for a value written to it. -/
def carried (fp : FloatOps) (v : Value) : Value := Msgpack.mpToCbor fp (Msgpack.cborToMp fp v)

variable {fp : FloatOps}

@[simp] theorem carried_null : carried fp .null = .null := rfl
@[simp] theorem carried_bool (b : Bool) : carried fp (.bool b) = .bool b := rfl
@[simp] theorem carried_float (x : F64) : carried fp (.float x) = .float x := rfl
@[simp] theorem carried_text (s : String) : carried fp (.text s) = .text s := rfl
@[simp] theorem carried_bytes (b : Bytes) : carried fp (.bytes b) = .bytes b := rfl

@[simp] theorem carried_array (vs : List Value) :
    carried fp (.array vs) = .array (vs.map (carried fp)) := by
  rw [carried, Msgpack.cborToMp_array, Msgpack.mpToCbor_array, Msgpack.itemsToMp_eq_map,
    Msgpack.itemsToCbor_eq_map, List.map_map]
  rfl

@[simp] theorem carried_map (entries : List (Value × Value)) :
    carried fp (.map entries) = .map (entries.map fun e => (carried fp e.1, carried fp e.2)) := by
  rw [carried, Msgpack.cborToMp_map, Msgpack.mpToCbor_map, Msgpack.entriesToMp_eq_map,
    Msgpack.entriesToCbor_eq_map, List.map_map]
  rfl

/-- Tags without a mirror are replaced by their content. -/
theorem carried_tag {t : UInt64} (h1 : t ≠ 1) (h2 : t ≠ 2) (h3 : t ≠ 3) (inner : Value) :
    carried fp (.tag t inner) = carried fp inner := by
  rw [carried, Msgpack.cborToMp_tag fp h1, if_neg (not_or.2 ⟨h2, h3⟩), carried]

theorem carried_integer {n : Integer} (h : -0x8000000000000000 ≤ n.val) :
    carried fp (.integer n) = .integer n := by
  have hn : (Ranged.tryFrom _ _ n.val : Option Msgpack.MpInteger) = some ⟨n.val, h, n.lt⟩ :=
    Ranged.tryFrom_of_mem h n.lt
  rw [carried, Msgpack.cborToMp_integer, hn]
  exact congrArg Value.integer (Ranged.ext_val rfl)

/-- An integer below the 64-bit range becomes a float. -/
theorem carried_integer_below {n : Integer} (h : n.val < -0x8000000000000000) :
    carried fp (.integer n) = .float (fp.ofI128 n.widen) := by
  have hn : (Ranged.tryFrom _ _ n.val : Option Msgpack.MpInteger) = none := by
    rw [Ranged.tryFrom, dif_neg]
    omega
  rw [carried, Msgpack.cborToMp_integer, hn]
  rfl

/-- An instant arrives as the instant of its seconds and nanoseconds. -/
theorem carried_instant {inner : Value} {secs : I64} {nanos : U32}
    (hparts : Msgpack.instantParts fp inner = some (secs, nanos)) :
    carried fp (.tag 1 inner) = Msgpack.instantToCbor secs nanos := by
  rw [carried, Msgpack.cborToMp_instant, hparts]
  exact Msgpack.extToCbor_timestamp secs (Msgpack.instantParts_nanos hparts)

/-- A tag 1 over anything else is dropped. -/
theorem carried_not_instant {inner : Value} (hparts : Msgpack.instantParts fp inner = none) :
    carried fp (.tag 1 inner) = carried fp inner := by
  rw [carried, Msgpack.cborToMp_instant, hparts, carried]

/-- The bignum tags keep byte strings. -/
theorem carried_bignum {t : UInt64} (ht : t = 2 ∨ t = 3) (b : Bytes) :
    carried fp (.tag t (.bytes b)) = .tag t (.bytes b) := by
  rcases ht with rfl | rfl <;> rfl

/-- Over anything else they are dropped too. -/
theorem carried_not_bignum {t : UInt64} (ht : t = 2 ∨ t = 3) {inner : Value}
    (hinner : ∀ b, inner ≠ .bytes b) : carried fp (.tag t inner) = carried fp inner := by
  have h1 : t ≠ 1 := by rcases ht with rfl | rfl <;> decide
  rw [carried, Msgpack.cborToMp_tag fp h1, if_pos ht, carried]
  cases inner with
  | bytes b => exact absurd rfl (hinner b)
  | _ => rfl

/-! ## What is kept -/

mutual

/-- Every integer in the value, at any depth, is at least `lo`. -/
def IntegersFrom (lo : Int) : Value → Prop
  | .integer n => lo ≤ n.val
  | .array items => AllIntegersFrom lo items
  | .map entries => EntriesIntegersFrom lo entries
  | .tag _ inner => IntegersFrom lo inner
  | _ => True

def AllIntegersFrom (lo : Int) : List Value → Prop
  | [] => True
  | v :: vs => IntegersFrom lo v ∧ AllIntegersFrom lo vs

def EntriesIntegersFrom (lo : Int) : List (Value × Value) → Prop
  | [] => True
  | (k, v) :: es => (IntegersFrom lo k ∧ IntegersFrom lo v) ∧ EntriesIntegersFrom lo es

end

theorem allIntegersFrom_iff {lo : Int} {items : List Value} :
    AllIntegersFrom lo items ↔ ∀ v ∈ items, IntegersFrom lo v := by
  induction items with
  | nil => simp [AllIntegersFrom]
  | cons v vs ih => rw [AllIntegersFrom, ih, List.forall_mem_cons]

theorem entriesIntegersFrom_iff {lo : Int} {entries : List (Value × Value)} :
    EntriesIntegersFrom lo entries ↔
      ∀ e ∈ entries, IntegersFrom lo e.1 ∧ IntegersFrom lo e.2 := by
  induction entries with
  | nil => simp [EntriesIntegersFrom]
  | cons e es ih => rw [EntriesIntegersFrom, ih, List.forall_mem_cons]

mutual

/-- The abstract meaning of the crossing.  Scalars stay, containers are erased inside.  Of
the tags, an instant keeps its seconds and nanoseconds, the bignum tags stay on byte
strings, and every other tag gives way to its content. -/
def erase (fp : FloatOps) : Value → Value
  | .array items => .array (eraseItems fp items)
  | .map entries => .map (eraseEntries fp entries)
  | .tag t inner =>
      if t = 1 then
        match Msgpack.instantParts fp inner with
        | some (secs, nanos) => .tag 1 (Msgpack.instantContent secs nanos)
        | none => erase fp inner
      else if t = 2 ∨ t = 3 then
        match inner with
        | .bytes b => .tag t (.bytes b)
        | _ => erase fp inner
      else erase fp inner
  | v => v

def eraseItems (fp : FloatOps) : List Value → List Value
  | [] => []
  | v :: vs => erase fp v :: eraseItems fp vs

def eraseEntries (fp : FloatOps) : List (Value × Value) → List (Value × Value)
  | [] => []
  | (k, v) :: es => (erase fp k, erase fp v) :: eraseEntries fp es

end

theorem erase_array (items : List Value) :
    erase fp (.array items) = .array (items.map (erase fp)) := by
  have hitems : eraseItems fp items = items.map (erase fp) := by
    induction items with
    | nil => rfl
    | cons v vs ih => exact congrArg (erase fp v :: ·) ih
  exact congrArg Value.array hitems

theorem erase_map (entries : List (Value × Value)) :
    erase fp (.map entries) = .map (entries.map fun e => (erase fp e.1, erase fp e.2)) := by
  have hentries : eraseEntries fp entries = entries.map fun e => (erase fp e.1, erase fp e.2) := by
    induction entries with
    | nil => rfl
    | cons e es ih => exact congrArg ((erase fp e.1, erase fp e.2) :: ·) ih
  exact congrArg Value.map hentries

theorem erase_one (inner : Value) :
    erase fp (.tag 1 inner) =
      match Msgpack.instantParts fp inner with
      | some (secs, nanos) => .tag 1 (Msgpack.instantContent secs nanos)
      | none => erase fp inner := rfl

theorem erase_bignum {t : UInt64} (ht : t = 2 ∨ t = 3) (b : Bytes) :
    erase fp (.tag t (.bytes b)) = .tag t (.bytes b) := by
  rcases ht with rfl | rfl <;> rfl

theorem erase_not_bignum {t : UInt64} (ht : t = 2 ∨ t = 3) {inner : Value}
    (hinner : ∀ b, inner ≠ .bytes b) : erase fp (.tag t inner) = erase fp inner := by
  cases inner with
  | bytes b => exact absurd rfl (hinner b)
  | _ => rcases ht with rfl | rfl <;> rfl

theorem erase_tag {t : UInt64} (h1 : t ≠ 1) (ht : ¬ (t = 2 ∨ t = 3)) (inner : Value) :
    erase fp (.tag t inner) = erase fp inner :=
  (if_neg h1).trans (if_neg ht)

/-- Within the 64-bit range the crossing is the erasure. -/
theorem carried_eq_erase {v : Value} (h : IntegersFrom (-0x8000000000000000) v) :
    carried fp v = erase fp v := by
  induction v with
  | null => rfl
  | bool b => rfl
  | integer n => exact carried_integer h
  | float f => rfl
  | text s => rfl
  | bytes b => rfl
  | array items ih =>
      rw [IntegersFrom, allIntegersFrom_iff] at h
      rw [carried_array, erase_array]
      congr 1
      exact List.map_congr_left fun v hv => ih v hv (h v hv)
  | map entries ih =>
      rw [IntegersFrom, entriesIntegersFrom_iff] at h
      rw [carried_map, erase_map]
      congr 1
      refine List.map_congr_left fun e he => ?_
      rw [(ih e he).1 (h e he).1, (ih e he).2 (h e he).2]
  | tag t inner ih =>
      have hinner := ih h
      by_cases h1 : t = 1
      · subst h1
        rw [erase_one]
        cases hparts : Msgpack.instantParts fp inner with
        | none => rw [carried_not_instant hparts, hinner]
        | some instant =>
            obtain ⟨secs, nanos⟩ := instant
            rw [carried_instant hparts, Msgpack.instantToCbor_eq]
      · by_cases ht : t = 2 ∨ t = 3
        · cases inner with
          | bytes b => rw [carried_bignum ht, erase_bignum ht]
          | _ =>
              rw [carried_not_bignum ht (by rintro b ⟨⟩), hinner,
                erase_not_bignum ht (by rintro b ⟨⟩)]
        · obtain ⟨h2, h3⟩ := not_or.1 ht
          rw [carried_tag h1 h2 h3, hinner, erase_tag h1 ht]

/-- The second crossing changes nothing. -/
theorem carried_idempotent (v : Value) : carried fp (carried fp v) = carried fp v := by
  induction v with
  | null => rfl
  | bool b => rfl
  | integer n =>
      by_cases h : -0x8000000000000000 ≤ n.val
      · rw [carried_integer h, carried_integer h]
      · rw [carried_integer_below (by omega), carried_float]
  | float f => rfl
  | text s => rfl
  | bytes b => rfl
  | array items ih =>
      rw [carried_array, carried_array, List.map_map]
      congr 1
      exact List.map_congr_left ih
  | map entries ih =>
      rw [carried_map, carried_map, List.map_map]
      congr 1
      refine List.map_congr_left fun e he => ?_
      show (carried fp (carried fp e.1), carried fp (carried fp e.2)) = _
      rw [(ih e he).1, (ih e he).2]
  | tag t inner ih =>
      by_cases h1 : t = 1
      · subst h1
        cases hparts : Msgpack.instantParts fp inner with
        | none => rw [carried_not_instant hparts, ih]
        | some instant =>
            -- The content of the tag is written so that it is read as the same instant.
            obtain ⟨secs, nanos⟩ := instant
            have hcontent := Msgpack.instantParts_content fp secs
              (Msgpack.instantParts_nanos hparts)
            rw [carried_instant hparts, Msgpack.instantToCbor_eq, carried_instant hcontent,
              Msgpack.instantToCbor_eq]
      · by_cases ht : t = 2 ∨ t = 3
        · cases inner with
          | bytes b => rw [carried_bignum ht, carried_bignum ht]
          | _ => rw [carried_not_bignum ht (by rintro b ⟨⟩), ih]
        · obtain ⟨h2, h3⟩ := not_or.1 ht
          rw [carried_tag h1 h2 h3, ih]

/-- Crossing to MessagePack and back erases, and does so once. -/
theorem msgpack_crossing_erases (fp : FloatOps) :
    (∀ v, IntegersFrom (-0x8000000000000000) v →
      Msgpack.mpToCbor fp (Msgpack.cborToMp fp v) = erase fp v) ∧
    ∀ v, Msgpack.mpToCbor fp (Msgpack.cborToMp fp
        (Msgpack.mpToCbor fp (Msgpack.cborToMp fp v))) =
      Msgpack.mpToCbor fp (Msgpack.cborToMp fp v) :=
  ⟨fun _ h => carried_eq_erase h, carried_idempotent⟩

/-- A tag on an instant of half a second, written as the bare pair of a fraction. -/
def halfSecond : Value :=
  .tag 99 (.tag 1 (.array [.integer ⟨-1, by decide, by decide⟩, .integer ⟨5, by decide, by decide⟩]))

theorem msgpack_crossing_erases_half_second :
    Msgpack.mpToCbor Platform.bare.fp (Msgpack.cborToMp Platform.bare.fp halfSecond) =
      .tag 1 (.tag 4 (.array [.integer ⟨-9, by decide, by decide⟩,
        .integer ⟨500000000, by decide, by decide⟩])) := by
  have hfrom : IntegersFrom (-0x8000000000000000) halfSecond :=
    ⟨by show _ ≤ (-1 : Int); decide, by show _ ≤ (5 : Int); decide, trivial⟩
  rw [(msgpack_crossing_erases Platform.bare.fp).1 halfSecond hfrom]
  rfl

end VgiCbor.MsgpackWire
