import VgiCbor.Core.Calendar
import VgiCbor.Core.Instants
import VgiCbor.Core.Json
import VgiCbor.Lib.InstantText

/-!
# MessagePack as JSON

`mpToJson` renders a MessagePack item as JSON: binary data and invalid strings as
base64url text, an `ext` item with its code, an instant as an RFC 3339 text.
-/

namespace VgiCbor.Msgpack

open MachineInt Binary64 Json InstantText

def rfc3339 (secs : I64) (nanos : U32) : String :=
  if 0 < nanos.val then
    String.ofList (dateTimeText (calendar secs) ++ '.' :: (padded 9 nanos.val ++ ['Z']))
  else String.ofList (dateTimeText (calendar secs) ++ ['Z'])

def integerToJson (n : MpInteger) : Json :=
  match (Ranged.tryFrom _ _ n.val : Option U64) with
  | some u => .number (.posInt u)
  | none =>
      match (Ranged.tryFrom _ _ n.val : Option I64) with
      | some s => .number (.negInt s)
      | none => .null

def extToJson (ty : I8) (data : Bytes) : Json :=
  let opaqueExt := .object (insert "data" (.string (b64url data))
    (insert "ext_type" (intToJson ty.val) []))
  if ty = TIMESTAMP_EXT then
    match decodeTimestamp data with
    | some (secs, nanos) => .object (insert "timestamp" (.string (rfc3339 secs nanos)) [])
    | none => opaqueExt
  else opaqueExt

mutual

/-- Render a MessagePack item as JSON directly, without the detour over CBOR. -/
def mpToJson (platform : Platform) : Mp → Json
  | .nil => .null
  | .boolean b => .bool b
  | .integer n => integerToJson n
  | .f32 f => floatToJson (platform.fp.widen f)
  | .f64 f => floatToJson f
  | .string (.text s) => .string s
  | .string (.invalid b) => .string (b64url b)
  | .binary b => .string (b64url b)
  | .array items => .array (mpToJsonItems platform items)
  | .map entries => .object (mpToJsonMembers platform entries [])
  | .ext ty data => extToJson ty data

/-- `items.iter().map(mp_to_json)` -/
def mpToJsonItems (platform : Platform) : List Mp → List Json
  | [] => []
  | v :: vs => mpToJson platform v :: mpToJsonItems platform vs

/-- Insert the entries one after the other; a later equal key replaces. -/
def mpToJsonMembers (platform : Platform) :
    List (Mp × Mp) → List (String × Json) → List (String × Json)
  | [], obj => obj
  | (k, v) :: es, obj =>
      mpToJsonMembers platform es (insert (mpKey platform k) (mpToJson platform v) obj)

/-- The object key for a map key: strings and integers as they are, anything else as its
JSON text. -/
def mpKey (platform : Platform) : Mp → String
  | .string (.text s) => s
  | .string (.invalid b) => b64url b
  | .integer n => toString n.val
  | .nil => platform.jsonText .null
  | .boolean b => platform.jsonText (.bool b)
  | .f32 f => platform.jsonText (floatToJson (platform.fp.widen f))
  | .f64 f => platform.jsonText (floatToJson f)
  | .binary b => platform.jsonText (.string (b64url b))
  | .array items => platform.jsonText (.array (mpToJsonItems platform items))
  | .map entries => platform.jsonText (.object (mpToJsonMembers platform entries []))
  | .ext ty data => platform.jsonText (extToJson ty data)

end

/-! ## The text of an instant -/

/-- The fraction in the text of an instant: its nanoseconds over as many digits as are
printed. -/
theorem readInstant_rfc3339 (secs : I64) (nanos : U32) :
    readInstant (rfc3339 secs nanos).toList =
      some ((secs.val : ℚ) + (nanos.val : ℚ) / 10 ^ (padded 9 nanos.val).length) := by
  obtain ⟨hvalid, hsecs⟩ := calendar_spec secs
  have hnanos := nanos.ge
  unfold rfc3339
  split_ifs with hfraction
  · have hpad := padded_of_nonneg hnanos 9
    have hdigits : ∀ c ∈ padded 9 nanos.val, c.isDigit = true := by
      rw [hpad]
      exact fun c hc => zeroPad_isDigit hc
    have hnumber : ((number (padded 9 nanos.val) : Nat) : Int) = nanos.val := by
      rw [hpad, number_zeroPad]
      omega
    rw [String.toList_ofList, readInstant_dateTimeText hvalid, readFraction_digits hdigits,
      Option.map_some, hsecs]
    congr 3
    exact_mod_cast hnumber
  · have hzero : nanos.val = 0 := by omega
    rw [String.toList_ofList, readInstant_dateTimeText hvalid, hsecs, hzero]
    simp [readFraction]

end VgiCbor.Msgpack
