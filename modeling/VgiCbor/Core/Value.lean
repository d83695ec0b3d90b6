import VgiCbor.Lib.Binary64
import VgiCbor.Lib.ItemStream

/-!
# The CBOR value model and the shared parsing helpers

`Value` is the decoded data item every decoder works on.  The byte-level codec
itself (one item per call, with a recursion limit) is external and enters as a
`CborCodec`; `parse` and `parseStrict` are the two entry points built on it.
-/

namespace VgiCbor

open MachineInt Binary64

abbrev Bytes := List UInt8

def utf8 (s : String) : Bytes := s.toUTF8.data.toList

/-- A CBOR integer: major types 0 and 1 together span `[-2^64, 2^64)`. -/
abbrev Integer := Ranged (-0x10000000000000000) 0x10000000000000000

/-- A decoded CBOR data item.  Maps keep their entries in the order of the blob, duplicates
included. -/
inductive Value where
  | null
  | bool (b : Bool)
  | integer (n : Integer)
  | float (f : F64)
  | text (s : String)
  | bytes (b : Bytes)
  | array (items : List Value)
  | map (entries : List (Value × Value))
  | tag (t : UInt64) (inner : Value)

instance : Ranged.Within (-0x80) 0x80 (-0x10000000000000000) 0x10000000000000000 :=
  ⟨by decide, by decide⟩

instance : Ranged.Within (-0x80000000) 0x80000000 (-0x10000000000000000) 0x10000000000000000 :=
  ⟨by decide, by decide⟩

instance : Ranged.Within (-0x8000000000000000) 0x8000000000000000 (-0x10000000000000000)
    0x10000000000000000 :=
  ⟨by decide, by decide⟩

instance : Ranged.Within 0 0x10000000000000000 (-0x10000000000000000) 0x10000000000000000 :=
  ⟨by decide, by decide⟩

instance : Ranged.Within (-0x10000000000000000) 0x10000000000000000
    (-0x80000000000000000000000000000000) 0x80000000000000000000000000000000 :=
  ⟨by decide, by decide⟩

/-- `i64 → Integer`. -/
def Integer.ofI64 (n : I64) : Integer := n.widen

/-- `u64 → Integer`. -/
def Integer.ofU64 (n : U64) : Integer := n.widen

/-- Division by a count, truncating toward zero, as integer division of the source does. -/
def Integer.tdiv (n : Integer) (k : Nat) : Integer :=
  ⟨Int.tdiv n.val k, (tdiv_mem k ⟨n.ge, n.lt⟩).1, (tdiv_mem k ⟨n.ge, n.lt⟩).2⟩

@[simp] theorem Integer.ofI64_val (n : I64) : (Integer.ofI64 n).val = n.val := rfl
@[simp] theorem Integer.ofU64_val (n : U64) : (Integer.ofU64 n).val = n.val := rfl

namespace Value

/-- Induction with a hypothesis for every item below an array, map or tag. -/
@[induction_eliminator]
theorem induct {P : Value → Prop} (null : P .null) (bool : ∀ b, P (.bool b))
    (integer : ∀ n, P (.integer n)) (float : ∀ f, P (.float f)) (text : ∀ s, P (.text s))
    (bytes : ∀ b, P (.bytes b)) (array : ∀ items, (∀ v ∈ items, P v) → P (.array items))
    (map : ∀ entries, (∀ e ∈ entries, P e.1 ∧ P e.2) → P (.map entries))
    (tag : ∀ t inner, P inner → P (.tag t inner)) (v : Value) : P v := by
  refine @Value.rec P (fun items => ∀ v ∈ items, P v)
    (fun entries => ∀ e ∈ entries, P e.1 ∧ P e.2) (fun e => P e.1 ∧ P e.2)
    null bool integer float text bytes array map tag ?_ ?_ ?_ ?_ ?_ v
  · simp
  · intro item items hitem hitems
    simpa using ⟨hitem, hitems⟩
  · simp
  · intro entry entries hentry hentries e he
    rcases List.mem_cons.1 he with rfl | he
    · exact hentry
    · exact hentries e he
  · intro key val hkey hval
    exact ⟨hkey, hval⟩

mutual

/-- Nesting depth: every array, map and tag is one level.  A scalar has depth zero. -/
def depth : Value → Nat
  | .array items => depthItems items + 1
  | .map entries => depthEntries entries + 1
  | .tag _ inner => depth inner + 1
  | _ => 0

def depthItems : List Value → Nat
  | [] => 0
  | v :: vs => max (depth v) (depthItems vs)

/-- The deepest key or value of a list of entries. -/
def depthEntries : List (Value × Value) → Nat
  | [] => 0
  | (k, v) :: es => max (max (depth k) (depth v)) (depthEntries es)

end

theorem depthItems_le {items : List Value} {n : Nat} :
    depthItems items ≤ n ↔ ∀ v ∈ items, v.depth ≤ n := by
  induction items with
  | nil => simp [depthItems]
  | cons v vs ih => simp only [depthItems, Nat.max_le, ih, List.forall_mem_cons]

theorem depthEntries_le {entries : List (Value × Value)} {n : Nat} :
    depthEntries entries ≤ n ↔ ∀ e ∈ entries, e.1.depth ≤ n ∧ e.2.depth ≤ n := by
  induction entries with
  | nil => simp [depthEntries]
  | cons e es ih =>
      obtain ⟨k, v⟩ := e
      simp only [depthEntries, Nat.max_le, ih, List.forall_mem_cons]

/-- `matches!(item, Value::Map(_))` -/
def isMap : Value → Bool
  | .map _ => true
  | _ => false

end Value

/-! ## Decode errors -/

/-- Maximum CBOR nesting depth accepted by the decoders. -/
def MAX_NESTING : Nat := 64

/-- A classified decode failure.  `well_formed` reports its kind and its text. -/
inductive DecodeError where
  | truncated
  | trailingBytes
  | invalidMajor (m : String)
  | badUtf8
  | duplicateKey
  | nestingLimit
  | reservedSimple
  | structural (m : String)
  deriving DecidableEq

/-- The `well_formed.kind` label for an error. -/
def DecodeError.kind : DecodeError → String
  | .truncated => "truncated"
  | .trailingBytes => "trailing-bytes"
  | .invalidMajor _ => "invalid-major"
  | .badUtf8 => "bad-utf8"
  | .duplicateKey => "duplicate-key"
  | .nestingLimit => "nesting-limit"
  | .reservedSimple => "reserved-simple"
  | .structural _ => "structural"

/-- The `Display` text of an error. -/
def DecodeError.text : DecodeError → String
  | .truncated => "input ended before the item was complete"
  | .trailingBytes => "trailing bytes after the top-level item"
  | .invalidMajor m => s!"ill-formed CBOR: {m}"
  | .badUtf8 => "text string is not valid UTF-8"
  | .duplicateKey => "map contains a duplicate key"
  | .nestingLimit => s!"nesting exceeds the {MAX_NESTING}-level limit"
  | .reservedSimple => "reserved simple value"
  | .structural m => m

/-- What the byte-level decoder reports (`ciborium::de::Error`). -/
inductive CiboriumError where
  | unexpectedEof
  | io (message : String)
  | syntaxAt (offset : Nat)
  | semantic (message : String)
  | recursionLimitExceeded
  deriving DecidableEq

/-- `haystack.contains(needle)`. -/
def containsText (haystack needle : String) : Bool :=
  decide (needle.toList <:+: haystack.toList)

/-- Map a byte-level failure onto a `DecodeError` kind, partly by words in its message, as the
source does. -/
def classify : CiboriumError → DecodeError
  | .unexpectedEof => .truncated
  | .io message => .invalidMajor message
  | .syntaxAt _ => .invalidMajor "invalid initial byte / argument"
  | .semantic message =>
      let lower := message.toLower
      if containsText lower "utf" then .badUtf8
      else if containsText lower "simple" then .reservedSimple
      else .invalidMajor message
  | .recursionLimitExceeded => .nestingLimit

/-! ## The external codec and the two parsers -/

/-- The byte-level codec: `into_writer`, and one-item decoding under a recursion
limit. -/
structure CborCodec where
  encode : Value → Except String Bytes
  decoder : Nat → ItemStream.ItemDecoder Value CiboriumError

/-- What the repository relies on: every value encodes, and decoding under a
recursion limit returns a value nested at most that deep and refuses any other. -/
structure CborCodec.RoundTrips (codec : CborCodec) : Prop where
  encode_total : ∀ v, ∃ bytes, codec.encode v = .ok bytes
  decode_encode : ∀ v bytes limit, codec.encode v = .ok bytes → v.depth ≤ limit →
    (codec.decoder limit).run bytes = .ok (v, [])
  too_deep : ∀ v bytes limit, codec.encode v = .ok bytes → limit < v.depth →
    (codec.decoder limit).run bytes = .error .recursionLimitExceeded

/-- The codec keeps the value: it is written, and read back as it was, up to the recursion
limit.  Not every value is kept in practice; a bignum tag over a short byte string comes back
as a plain integer. -/
structure CborCodec.Keeps (codec : CborCodec) (v : Value) : Prop where
  encodes : ∃ bytes, codec.encode v = .ok bytes
  decode_encode : ∀ bytes limit, codec.encode v = .ok bytes → v.depth ≤ limit →
    (codec.decoder limit).run bytes = .ok (v, [])
  too_deep : ∀ bytes limit, codec.encode v = .ok bytes → limit < v.depth →
    (codec.decoder limit).run bytes = .error .recursionLimitExceeded

theorem CborCodec.RoundTrips.keeps {codec : CborCodec} (h : codec.RoundTrips) (v : Value) :
    codec.Keeps v where
  encodes := h.encode_total v
  decode_encode := h.decode_encode v
  too_deep := h.too_deep v

/-- What else the repository relies on: whatever is decoded under a recursion limit is
nested at most that deep. -/
def CborCodec.Limited (codec : CborCodec) : Prop :=
  ∀ bytes limit v rest, (codec.decoder limit).run bytes = .ok (v, rest) → v.depth ≤ limit

variable (codec : CborCodec)

/-- Decode exactly one CBOR item, allowing trailing bytes.  The recursion limit is passed to
the decoder. -/
def parse (bytes : Bytes) : Except DecodeError Value :=
  match (codec.decoder MAX_NESTING).run bytes with
  | .ok (value, _) => .ok value
  | .error e => .error (classify e)

/-- Decode exactly one CBOR item and require that the whole input is consumed. -/
def parseStrict (bytes : Bytes) : Except DecodeError Value :=
  match (codec.decoder MAX_NESTING).run bytes with
  | .ok (value, rest) =>
      let position := bytes.length - rest.length
      if position ≠ bytes.length then .error .trailingBytes else .ok value
  | .error e => .error (classify e)

variable {codec}

theorem CborCodec.Keeps.parse_encode {v : Value} (h : codec.Keeps v) {bytes : Bytes}
    (hencode : codec.encode v = .ok bytes) (hdepth : v.depth ≤ MAX_NESTING) :
    parse codec bytes = .ok v := by
  rw [parse, h.decode_encode bytes MAX_NESTING hencode hdepth]

/-- What `into_writer` emits is parsed back exactly when it is shallow enough. -/
theorem CborCodec.Keeps.parse_encode_eq {v : Value} (h : codec.Keeps v) {bytes : Bytes}
    (hencode : codec.encode v = .ok bytes) :
    parse codec bytes = if v.depth ≤ MAX_NESTING then .ok v else .error .nestingLimit := by
  by_cases hdepth : v.depth ≤ MAX_NESTING
  · rw [h.parse_encode hencode hdepth, if_pos hdepth]
  · rw [parse, h.too_deep bytes MAX_NESTING hencode (by omega), if_neg hdepth]
    rfl

/-- There is no item in the empty input. -/
theorem parse_nonempty {bytes : Bytes} {v : Value} (h : parse codec bytes = .ok v) :
    bytes.isEmpty = false := by
  cases bytes with
  | nil =>
      obtain ⟨e, he⟩ := ItemStream.ItemDecoder.run_nil (codec.decoder MAX_NESTING)
      rw [parse, he] at h
      cases h
  | cons byte bytes => rfl

/-- What `into_writer` emits passes `parse_strict` exactly when it is shallow enough. -/
theorem CborCodec.Keeps.parseStrict_encode {v : Value} (h : codec.Keeps v) {bytes : Bytes}
    (hencode : codec.encode v = .ok bytes) :
    parseStrict codec bytes =
      if v.depth ≤ MAX_NESTING then .ok v else .error .nestingLimit := by
  rw [parseStrict]
  by_cases hdepth : v.depth ≤ MAX_NESTING
  · rw [h.decode_encode bytes MAX_NESTING hencode hdepth]
    simp [hdepth]
  · rw [h.too_deep bytes MAX_NESTING hencode (by omega)]
    simp [hdepth, classify]

theorem CborCodec.Limited.parse_depth (h : codec.Limited) {bytes : Bytes} {v : Value}
    (hparse : parse codec bytes = .ok v) : v.depth ≤ MAX_NESTING := by
  unfold parse at hparse
  cases hrun : (codec.decoder MAX_NESTING).run bytes with
  | error e =>
      rw [hrun] at hparse
      cases hparse
  | ok result =>
      obtain ⟨value, rest⟩ := result
      rw [hrun] at hparse
      cases hparse
      exact h bytes MAX_NESTING v rest hrun

theorem CborCodec.Limited.parseStrict_depth (h : codec.Limited) {bytes : Bytes} {v : Value}
    (hparse : parseStrict codec bytes = .ok v) : v.depth ≤ MAX_NESTING := by
  unfold parseStrict at hparse
  cases hrun : (codec.decoder MAX_NESTING).run bytes with
  | error e =>
      rw [hrun] at hparse
      cases hparse
  | ok result =>
      obtain ⟨value, rest⟩ := result
      simp only [hrun] at hparse
      split_ifs at hparse
      cases hparse
      exact h bytes MAX_NESTING v rest hrun

/-! ## Duplicate keys and transparent tags -/

/-- Equality of floats for map keys: IEEE equality, with all `NaN`s identified.  So the two
zeros are one key. -/
def floatsEqual (x y : F64) : Bool :=
  if x.isNan || y.isNan then x.isNan && y.isNan
  else x.bits == y.bits || (x.toRat?.any (· == 0) && y.toRat?.any (· == 0))

mutual

/-- Structural equality for map-key comparison.  Entries of maps are compared in their order. -/
def valuesEqual : Value → Value → Bool
  | .integer x, .integer y => x = y
  | .bytes x, .bytes y => x == y
  | .float x, .float y => floatsEqual x y
  | .text x, .text y => x == y
  | .bool x, .bool y => x == y
  | .null, .null => true
  | .tag tx vx, .tag ty vy => tx == ty && valuesEqual vx vy
  | .array x, .array y => itemsEqual x y
  | .map x, .map y => entriesEqual x y
  | _, _ => false

/-- `x.len() == y.len()` and all items equal in order. -/
def itemsEqual : List Value → List Value → Bool
  | [], [] => true
  | p :: ps, q :: qs => valuesEqual p q && itemsEqual ps qs
  | _, _ => false

/-- `x.len() == y.len()` and all entries equal in order. -/
def entriesEqual : List (Value × Value) → List (Value × Value) → Bool
  | [], [] => true
  | (kx, vx) :: xs, (ky, vy) :: ys =>
      valuesEqual kx ky && valuesEqual vx vy && entriesEqual xs ys
  | _, _ => false

end

/-- Some key equals a later one. -/
def hasEqualPair : List (Value × Value) → Bool
  | [] => false
  | (k, _) :: rest => rest.any (fun e => valuesEqual k e.1) || hasEqualPair rest

mutual

/-- True if any map in the value has two equal keys, at any depth and inside keys too. -/
def hasDuplicateKeys : Value → Bool
  | .map entries => hasEqualPair entries || entriesHaveDuplicateKeys entries
  | .array items => itemsHaveDuplicateKeys items
  | .tag _ inner => hasDuplicateKeys inner
  | _ => false

/-- `items.iter().any(has_duplicate_keys)` -/
def itemsHaveDuplicateKeys : List Value → Bool
  | [] => false
  | v :: vs => hasDuplicateKeys v || itemsHaveDuplicateKeys vs

/-- Any key or value of the entries has duplicate keys. -/
def entriesHaveDuplicateKeys : List (Value × Value) → Bool
  | [] => false
  | (k, v) :: es => hasDuplicateKeys k || hasDuplicateKeys v || entriesHaveDuplicateKeys es

end

/-- Strip the self-describe tag 55799, as often as it occurs on the outside.  Tags further
inside stay. -/
def stripTransparent : Value → Value
  | .tag t inner => if t = 55799 then stripTransparent inner else .tag t inner
  | v => v

end VgiCbor
