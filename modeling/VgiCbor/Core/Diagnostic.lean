import VgiCbor.Core.Value
import VgiCbor.Lib.UniqueReading

/-!
# Diagnostic notation

`render` writes a value in the notation for people: unlike `to_json` it keeps tags, byte
strings and the width of numbers apart.
-/

namespace VgiCbor.Diagnostic

open MachineInt Binary64

/-- Digits behind a sign. -/
def signed (negative : Bool) (digits : List Char) : List Char :=
  if negative then '-' :: digits else digits

/-- `f == f.trunc() && f.abs() < 1e16` -/
def isShort (f : F64) : Bool := f.toRat?.any fun q => q.den == 1 && decide (|q| < 10 ^ 16)

/-- An integral float with one decimal; a negative zero keeps its sign.  The decimal is what
tells it from an integer. -/
def oneDecimal (f : F64) : List Char :=
  signed f.isNegative (Nat.toDigits 10 ((f.trunc?.getD 0).natAbs)) ++ ".0".toList

/-- The text of a float: the names of the special values, one decimal for short integral ones,
and Rust's own display for all others. -/
def renderFloat (fp : FloatOps) (f : F64) : List Char :=
  if f.isNan then "NaN".toList
  else if !f.isFinite then (if f.isNegative then "-Infinity" else "Infinity").toList
  else if isShort f then oneDecimal f
  else (fp.display f).toList

/-- Only the quotation mark and the backslash are escaped.  Control characters stand as they
are. -/
def escapeChar (c : Char) : List Char :=
  if c = '\x22' then "\\\"".toList else if c = '\\' then "\\\\".toList else [c]

def hexPair (b : UInt8) : List Char := [Nat.digitChar (b.toNat / 16), Nat.digitChar (b.toNat % 16)]

mutual

/-- The text that is pushed for a value. -/
def render (fp : FloatOps) : Value → List Char
  | .null => "null".toList
  | .bool true => "true".toList
  | .bool false => "false".toList
  | .integer i => (toString i.val).toList
  | .float f => renderFloat fp f
  | .text s => "\"".toList ++ s.toList.flatMap escapeChar ++ "\"".toList
  | .bytes b => "h'".toList ++ b.flatMap hexPair ++ "'".toList
  | .array items => "[".toList ++ renderItems fp true items ++ "]".toList
  | .map entries => "\x7b".toList ++ renderEntries fp true entries ++ "\x7d".toList
  | .tag t inner => (toString t.toNat).toList ++ "(".toList ++ render fp inner ++ ")".toList

/-- The items, with a separator in front of all but the first. -/
def renderItems (fp : FloatOps) : Bool → List Value → List Char
  | _, [] => []
  | first, v :: vs =>
      (if first then [] else ", ".toList) ++ render fp v ++ renderItems fp false vs

/-- The entries, with a separator in front of all but the first. -/
def renderEntries (fp : FloatOps) : Bool → List (Value × Value) → List Char
  | _, [] => []
  | first, (k, v) :: es =>
      (if first then [] else ", ".toList) ++ (render fp k ++ ": ".toList ++ render fp v) ++
        renderEntries fp false es

end

def diagnostic (fp : FloatOps) (codec : CborCodec) (bytes : Bytes) : Except DecodeError String :=
  (parseStrict codec bytes).map fun value => String.ofList (render fp value)

/-- The notation of a single map key, which names it in the location of a tag and among the
private claims of a token. -/
def diagnosticKey (fp : FloatOps) (key : Value) : String := String.ofList (render fp key)

end VgiCbor.Diagnostic
