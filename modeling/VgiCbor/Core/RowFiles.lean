import VgiCbor.Core.ConcreteCodecs
import VgiCbor.Lib.StreamCut

/-!
# Row files continue and cut cleanly

A row file is a bare concatenation of items, so files are appended by appending their
bytes, and a file that was cut off has an error at its end exactly when the cut went
through an item.
-/

namespace VgiCbor

open ItemStream

variable (codec : CborCodec) (mpCodec : Msgpack.MpCodec)

theorem Seq.parseSeq_splices {within : Value → Prop}
    (hkept : ∀ v, within v → codec.Keeps v ∧ v.depth ≤ MAX_NESTING) :
    Splices (codec.decoder MAX_NESTING) (Seq.parseSeq codec) (encodeValue codec) within := by
  apply parseLoop_splices
  intro v bytes hencode hwithin
  refine (hkept v hwithin).1.decode_encode bytes MAX_NESTING ?_ (hkept v hwithin).2
  -- `encodeValue` only rewords the error of the byte-level encoder.
  unfold encodeValue at hencode
  split at hencode
  · next out hout => rw [hout, ← hencode]
  · cases hencode

theorem Msgpack.parseStream_splices {limit : Nat} (hcodec : mpCodec.RoundTrips limit) :
    Splices mpCodec.decoder (Msgpack.parseStream mpCodec) (Msgpack.encodeValue mpCodec)
      (fun v => v.depth ≤ limit) := by
  apply parseLoop_splices
  intro v bytes hencode hdepth
  refine hcodec.decode_encode v bytes ?_ hdepth
  unfold Msgpack.encodeValue at hencode
  split at hencode
  · next out hout => rw [hout, ← hencode]
  · cases hencode

/-- Row files of both formats: the encodings of a list of items parse as that list, a
clean file is continued by any other one, and a cut keeps the items that end before it
and is an error exactly inside an item. -/
theorem row_files_splice (hcodec : codec.RoundTrips) (limit : Nat)
    (hmsgpack : mpCodec.RoundTrips limit) :
    Splices (codec.decoder MAX_NESTING) (Seq.parseSeq codec) (encodeValue codec)
        (fun v => v.depth ≤ MAX_NESTING) ∧
      Splices mpCodec.decoder (Msgpack.parseStream mpCodec) (Msgpack.encodeValue mpCodec)
        (fun v => v.depth ≤ limit) := by
  constructor
  · exact Seq.parseSeq_splices codec fun v hdepth => ⟨hcodec.keeps v, hdepth⟩
  · exact Msgpack.parseStream_splices mpCodec hmsgpack

/-- A file of two rows, whole and cut through its second row, in either format. -/
theorem row_files_splice_two_rows :
    Seq.parseSeq Definite.codec [0x82, 0x01, 0xf6, 0x81, 0xf5] =
        ⟨[.array [.integer ⟨1, by decide, by decide⟩, .null], .array [.bool true]], none⟩ ∧
      (Msgpack.parseStream FixMsgpack.codec ([0x91, 0x01, 0x91, 0xc0].take 3)).error ≠ none := by
  obtain ⟨hseq, hstream⟩ := row_files_splice Definite.codec FixMsgpack.codec
    Definite.codec_roundTrips 1023 FixMsgpack.codec_roundTrips
  constructor
  · exact hseq.concat [.array [.integer ⟨1, by decide, by decide⟩, .null], .array [.bool true]]
      [[0x82, 0x01, 0xf6], [0x81, 0xf5]] (by decide) rfl
  · have hwhole := hstream.concat [.array [.integer ⟨1, by decide, by decide⟩], .array [.nil]]
      [[0x91, 0x01], [0x91, 0xc0]] (by decide) rfl
    have hclean : (Msgpack.parseStream FixMsgpack.codec [0x91, 0x01, 0x91, 0xc0]).error = none :=
      congrArg Parsed.error hwhole
    -- The second row takes up the bytes 2 and 3.
    refine ((hstream.cut _ 3 hclean).2).2 ⟨⟨2, 4, .array [.nil]⟩, ?_, by decide, by decide⟩
    have hfirst : FixMsgpack.codec.decoder.run [0x91, 0x01, 0x91, 0xc0] =
        .ok (.array [.integer ⟨1, by decide, by decide⟩], [0x91, 0xc0]) := rfl
    have hsecond : FixMsgpack.codec.decoder.run [0x91, 0xc0] = .ok (.array [.nil], []) := rfl
    rw [spans, spansFrom_ok hfirst, spansFrom_ok hsecond]
    simp

end VgiCbor
