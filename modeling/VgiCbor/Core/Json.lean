import VgiCbor.Core.Encode

/-!
# The JSON bridge

`toJsonValue` renders every CBOR value as JSON: tags are transparent, byte
strings become base64url text, map keys are stringified.  `fromJsonStr` parses
JSON text and encodes it as deterministic CBOR.  The JSON parser and printer are
external.
-/

namespace VgiCbor

open MachineInt Binary64

namespace Json

inductive Number where
  | posInt (n : U64)
  | negInt (n : I64)
  | float (f : F64)

end Json

/-- A JSON document.  The members of an object are sorted by key, one per key, as in the map
type that the source builds them in. -/
inductive Json where
  | null
  | bool (b : Bool)
  | number (n : Json.Number)
  | string (s : String)
  | array (items : List Json)
  | object (members : List (String × Json))

/-- What runs outside the repository's own code: the float unit, and the JSON
parser and printer. -/
structure Platform where
  fp : FloatOps
  parseJson : String → Except String Json
  jsonText : Json → String

/-- A platform for runs without JSON texts and without float arithmetic.  Results that do not
depend on either are evaluated on it. -/
def Platform.bare : Platform where
  fp :=
    { ofI128 := fun _ => ⟨0⟩, powi10 := fun _ => ⟨0⟩, mul := fun x _ => x, sub := fun x _ => x,
      round := id, floor := id, widen := F32.rebias, narrow := F64.rebias,
      display := fun _ => "" }
  parseJson := fun _ => .error ""
  jsonText := fun _ => ""

namespace Json

/-- Insert or replace a member, and keep the members sorted by key. -/
def insert (key : String) (value : Json) : List (String × Json) → List (String × Json)
  | [] => [(key, value)]
  | (k, v) :: rest =>
      if key < k then (key, value) :: (k, v) :: rest
      else if key = k then (key, value) :: rest
      else (k, v) :: insert key value rest

/-! ## CBOR to JSON -/

/-- The base64url digit of a six-bit number. -/
def b64Digit (n : Nat) : Char :=
  "ABCDEFGHIJKLMNOPQRSTUVWXYZabcdefghijklmnopqrstuvwxyz0123456789-_".toList.getD (n % 64) 'A'

/-- The base64url digits of a byte string, without padding. -/
def b64Digits : Bytes → List Char
  | a :: b :: c :: rest =>
      let n := (a.toNat * 256 + b.toNat) * 256 + c.toNat
      b64Digit (n / 262144) :: b64Digit (n / 4096) :: b64Digit (n / 64) :: b64Digit n ::
        b64Digits rest
  | [a, b] =>
      let n := (a.toNat * 256 + b.toNat) * 4
      [b64Digit (n / 4096), b64Digit (n / 64), b64Digit n]
  | [a] =>
      let n := a.toNat * 16
      [b64Digit (n / 64), b64Digit n]
  | [] => []

def b64url (bytes : Bytes) : String := String.ofList (b64Digits bytes)

/-- An integer outside JSON's range is rendered as a decimal string. -/
def intToJson (v : Int) : Json :=
  match (Ranged.tryFrom _ _ v : Option U64) with
  | some u => .number (.posInt u)
  | none =>
      match (Ranged.tryFrom _ _ v : Option I64) with
      | some i => .number (.negInt i)
      | none => .string (toString v)

/-- JSON has no infinities and no `NaN`: these are rendered as `null`. -/
def floatToJson (f : F64) : Json :=
  if f.isFinite then .number (.float f) else .null

mutual

/-- Render a decoded CBOR value.  Tags are transparent, byte strings become base64url, and
keys of any type become texts. -/
def toJsonValue (platform : Platform) : Value → Json
  | .null => .null
  | .bool b => .bool b
  | .integer i => intToJson i.val
  | .float f => floatToJson f
  | .text s => .string s
  | .bytes b => .string (b64url b)
  | .array items => .array (toJsonItems platform items)
  | .map entries => .object (toJsonMembers platform entries [])
  | .tag _ inner => toJsonValue platform inner

/-- `items.iter().map(to_json_value)` -/
def toJsonItems (platform : Platform) : List Value → List Json
  | [] => []
  | v :: vs => toJsonValue platform v :: toJsonItems platform vs

/-- Insert the entries one after the other; a later equal key replaces. -/
def toJsonMembers (platform : Platform) :
    List (Value × Value) → List (String × Json) → List (String × Json)
  | [], obj => obj
  | (k, v) :: es, obj =>
      toJsonMembers platform es (insert (jsonKey platform k) (toJsonValue platform v) obj)

/-- The object key for a map key: text passes through, the rest is stringified as its JSON
text. -/
def jsonKey (platform : Platform) : Value → String
  | .text s => s
  | .integer i => toString i.val
  | .bytes b => b64url b
  | .bool b => toString b
  | .null => "null"
  | .float f => platform.fp.display f
  | .array items => platform.jsonText (.array (toJsonItems platform items))
  | .map entries => platform.jsonText (.object (toJsonMembers platform entries []))
  | .tag _ inner => platform.jsonText (toJsonValue platform inner)

end

variable {platform : Platform}

theorem toJsonItems_eq_map (items : List Value) :
    toJsonItems platform items = items.map (toJsonValue platform) := by
  induction items with
  | nil => rw [toJsonItems, List.map_nil]
  | cons v items ih => rw [toJsonItems, ih, List.map_cons]

/-- Decode bytes and render the JSON text.  The bytes must be one item with nothing behind it. -/
def toJsonString (platform : Platform) (codec : CborCodec) (bytes : Bytes) :
    Except DecodeError String :=
  match parseStrict codec bytes with
  | .error e => .error e
  | .ok value => .ok (platform.jsonText (toJsonValue platform value))

/-! ## JSON to CBOR -/

def numberToCbor : Number → Value
  | .posInt u => .integer (Integer.ofU64 u)
  | .negInt i => .integer (Integer.ofI64 i)
  | .float f => .float f

mutual

/-- Convert a JSON document into a CBOR value. -/
def jsonToCbor : Json → Value
  | .null => .null
  | .bool b => .bool b
  | .number n => numberToCbor n
  | .string s => .text s
  | .array items => .array (itemsToCbor items)
  | .object members => .map (membersToCbor members)

/-- `items.iter().map(json_to_cbor)` -/
def itemsToCbor : List Json → List Value
  | [] => []
  | j :: js => jsonToCbor j :: itemsToCbor js

/-- Text keys, converted values. -/
def membersToCbor : List (String × Json) → List (Value × Value)
  | [] => []
  | (k, j) :: ms => (.text k, jsonToCbor j) :: membersToCbor ms

end

theorem membersToCbor_eq_map (members : List (String × Json)) :
    membersToCbor members = members.map fun m => (.text m.1, jsonToCbor m.2) := by
  induction members with
  | nil => rw [membersToCbor, List.map_nil]
  | cons m rest ih => rw [membersToCbor, ih, List.map_cons]

theorem itemsToCbor_eq_map (items : List Json) : itemsToCbor items = items.map jsonToCbor := by
  induction items with
  | nil => rw [itemsToCbor, List.map_nil]
  | cons j rest ih => rw [itemsToCbor, ih, List.map_cons]

/-- Encode JSON text as core-deterministic CBOR: parsed, converted, put in order, written. -/
def fromJsonStr (platform : Platform) (codec : CborCodec) (s : String) : Except String Bytes :=
  match platform.parseJson s with
  | .error e => .error s!"invalid JSON: {e}"
  | .ok json => encodeValue codec (canonicalize codec .core (jsonToCbor json))

example : b64url [255, 238, 1, 0] = "_-4BAA" := by decide

end Json

end VgiCbor
