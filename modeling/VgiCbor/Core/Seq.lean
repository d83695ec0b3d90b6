import VgiCbor.Core.Json
import VgiCbor.Core.Msgpack

/-!
# Sequences of items

A CBOR Sequence (RFC 8742) and a concatenated MessagePack stream are read in two
ways: `parseSeq` and `parseStream` take a whole byte string apart, `SeqReader`
and `StreamReader` pull one item a call from a buffered reader.  Both pairs are
the loop and the reader of `ItemStream` at their own decoder.
-/

namespace VgiCbor

open ItemStream Msgpack Binary64

variable {σ : Type}

/-! ## CBOR Sequences -/

namespace Seq

variable (codec : CborCodec)

/-- Decode a sequence into its values: the items before the end, and the failure
that ended it early. -/
def parseSeq (bytes : Bytes) : Parsed Value :=
  parseLoop (codec.decoder MAX_NESTING) (fun e => (classify e).text)
    "sequence reader made no progress" [] bytes

/-- One decoded item of a sequence. -/
structure SeqItem where
  idx : MachineInt.I64
  valueJson : String

/-- Decode a sequence into its items, as far as they decode. -/
def seqDecode (platform : Platform) (bytes : Bytes) : List SeqItem :=
  (parseSeq codec bytes).items.zipIdx.map fun item =>
    ⟨MachineInt.I64.wrap item.2, platform.jsonText (Json.toJsonValue platform item.1)⟩

/-- An incremental reader of a CBOR Sequence. -/
abbrev SeqReader (σ : Type) := ItemReader σ

/-- `SeqReader::new` -/
def SeqReader.new (reader : σ) : SeqReader σ := ItemReader.new reader

/-- `SeqReader::next_item` -/
def SeqReader.nextItem (r : FailingBufRead σ) (s : SeqReader σ) :
    Option (Except String Value) × SeqReader σ :=
  ItemReader.nextItem (codec.decoder MAX_NESTING) (fun e => (classify e).text) id r s

end Seq

/-! ## MessagePack streams -/

namespace Msgpack

/-- The byte-level MessagePack codec; a decode error is its display text. -/
structure MpCodec where
  encode : Mp → Except String Bytes
  decoder : ItemDecoder Mp String

/-- What the repository relies on: an encoded item nested at most as deep as the
decoder's limit is decoded back. -/
structure MpCodec.RoundTrips (codec : MpCodec) (limit : Nat) : Prop where
  decode_encode : ∀ v bytes, codec.encode v = .ok bytes → v.depth ≤ limit →
    codec.decoder.run bytes = .ok (v, [])

variable (fp : FloatOps) (codec : MpCodec)

def encodeValue (item : Mp) : Except String Bytes :=
  match codec.encode item with
  | .ok bytes => .ok bytes
  | .error e => .error s!"msgpack encode: {e}"

/-- Decode exactly one item and require that the whole input is consumed. -/
def parse (bytes : Bytes) : Except String Mp :=
  match codec.decoder.run bytes with
  | .ok (value, rest) =>
      if rest ≠ [] then .error "trailing bytes after the top-level msgpack item"
      else .ok value
  | .error e => .error s!"msgpack decode: {e}"

/-- Decode a concatenation of items. -/
def parseStream (bytes : Bytes) : Parsed Mp :=
  parseLoop codec.decoder id "stream reader made no progress" [] bytes

/-- An incremental reader of a MessagePack stream. -/
abbrev StreamReader (σ : Type) := ItemReader σ

/-- `StreamReader::new` -/
def StreamReader.new (reader : σ) : StreamReader σ := ItemReader.new reader

/-- `StreamReader::next_item`: the next item, as a CBOR value. -/
def StreamReader.nextItem (r : FailingBufRead σ) (s : StreamReader σ) :
    Option (Except String Value) × StreamReader σ :=
  ItemReader.nextItem codec.decoder id (mpToCbor fp) r s

end Msgpack

/-! ## The incremental readers agree with the buffered parsers -/

variable (codec : CborCodec) (mpCodec : MpCodec) (fp : FloatOps) (r : LawfulBufRead σ)

theorem Seq.drains_parseSeq (s : σ) :
    ∃ stopped, Drains (Seq.SeqReader.nextItem codec r) (Seq.SeqReader.new s)
        (Seq.parseSeq codec (r.remaining s)).items (Seq.parseSeq codec (r.remaining s)).error
        stopped ∧
      Seq.SeqReader.nextItem codec r stopped = (none, stopped) := by
  have hdrains := drains_parseLoop (codec.decoder MAX_NESTING) (fun e => (classify e).text) id
    "sequence reader made no progress" r s
  rw [List.map_id] at hdrains
  exact hdrains

theorem Msgpack.drains_parseStream (s : σ) :
    ∃ stopped, Drains (Msgpack.StreamReader.nextItem fp mpCodec r) (Msgpack.StreamReader.new s)
        ((Msgpack.parseStream mpCodec (r.remaining s)).items.map (mpToCbor fp))
        (Msgpack.parseStream mpCodec (r.remaining s)).error stopped ∧
      Msgpack.StreamReader.nextItem fp mpCodec r stopped = (none, stopped) :=
  drains_parseLoop mpCodec.decoder id (mpToCbor fp) "stream reader made no progress" r s

/-- Draining either incremental reader yields exactly what its buffered parser
returns on the same bytes, items and error with its index alike, and afterwards
every further call returns nothing. -/
theorem incremental_readers_agree (s : σ) :
    (∃ stopped, Drains (Seq.SeqReader.nextItem codec r) (Seq.SeqReader.new s)
        (Seq.parseSeq codec (r.remaining s)).items (Seq.parseSeq codec (r.remaining s)).error
        stopped ∧
      Seq.SeqReader.nextItem codec r stopped = (none, stopped)) ∧
    (∃ stopped, Drains (Msgpack.StreamReader.nextItem fp mpCodec r) (Msgpack.StreamReader.new s)
        ((Msgpack.parseStream mpCodec (r.remaining s)).items.map (mpToCbor fp))
        (Msgpack.parseStream mpCodec (r.remaining s)).error stopped ∧
      Msgpack.StreamReader.nextItem fp mpCodec r stopped = (none, stopped)) := by
  constructor
  · exact Seq.drains_parseSeq codec r s
  · exact Msgpack.drains_parseStream mpCodec fp r s

end VgiCbor
