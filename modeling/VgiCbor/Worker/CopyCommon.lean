import VgiCbor.Core.Encode
import VgiCbor.Core.Seq

/-!
# What the two COPY directions share

The wire selector and the row shape.  A row file is a bare concatenation of
items, one a row: a CBOR Sequence or a MessagePack stream.
-/

namespace VgiCbor.Copy

open ItemStream Binary64

/-- Which binary encoding a COPY format speaks.  The two formats share the row shapes, the
producer and the writer; they differ in the codec only. -/
inductive Wire where
  | cbor
  | msgpack
  deriving DecidableEq

/-- The SQL `FORMAT` identifier, which also stands in front of the error messages. -/
def Wire.format : Wire → String
  | .cbor => "cbor"
  | .msgpack => "msgpack"

/-- The name of the encoding in error messages. -/
def Wire.label : Wire → String
  | .cbor => "CBOR"
  | .msgpack => "MessagePack"

/-- How a single row is represented as one wire item: a map keyed by column name, or an array
in column order. -/
inductive RowShape where
  | map
  | array
  deriving DecidableEq

/-- The item is of the declared shape.  What is inside it is not looked at here: a map without
any of the columns is usable, and gives a row of nulls. -/
def RowShape.usable : RowShape → Value → Bool
  | .map, .map _ => true
  | .array, .array _ => true
  | _, _ => false

def RowShape.name : RowShape → String
  | .map => "map"
  | .array => "array"

def RowShape.described : RowShape → String
  | .map => "a map"
  | .array => "an array"

/-- The byte-level codecs of both formats.  They are third-party crates, so the statements
about files take them as a parameter, with what they rely on as a hypothesis. -/
structure Codecs where
  cbor : CborCodec
  msgpack : Msgpack.MpCodec

variable (fp : FloatOps) (codecs : Codecs)

/-- Encode one row value to its wire bytes.  A value goes to MessagePack through `cborToMp`,
since that format has types of its own. -/
def Wire.encodeRow : Wire → Value → Except String Bytes
  | .cbor, value => encodeValue codecs.cbor value
  | .msgpack, value => Msgpack.encodeValue codecs.msgpack (Msgpack.cborToMp fp value)

/-- What the item reader of this format delivers on the bytes of a source, and the
error it ends in. -/
def Wire.items : Wire → Bytes → Parsed Value
  | .cbor, bytes => Seq.parseSeq codecs.cbor bytes
  | .msgpack, bytes =>
      let stream := Msgpack.parseStream codecs.msgpack bytes
      ⟨stream.items.map (Msgpack.mpToCbor fp), stream.error⟩

/-- An incremental item reader over this wire format, and its next item.  The reader is the
one `Wire.items` describes, run against a buffered source. -/
def Wire.nextItem {σ : Type} (r : FailingBufRead σ) :
    Wire → ItemReader σ → Option (Except String Value) × ItemReader σ
  | .cbor, s => Seq.SeqReader.nextItem codecs.cbor r s
  | .msgpack, s => Msgpack.StreamReader.nextItem fp codecs.msgpack r s

end VgiCbor.Copy
