import VgiCbor.Core.ConcreteCodecs
import VgiCbor.Worker.CopyCommon
import VgiCbor.Worker.ValueIn

/-!
# COPY TO

Every row becomes one item: a map keyed by column name, or an array in column
order.  With the `canonical` option the maps of an item are put into normal form
before it is encoded.
-/

namespace VgiCbor.Copy

open ValueIn

/-- The options of one COPY TO call.  Only the CBOR format has the second: a MessagePack file
is always written in the order of the columns. -/
structure Options where
  shape : RowShape
  canonical : Option Canon

variable (rt : Runtime) (codecs : Codecs)

/-- The values of one row, one for each column.  The first cell that cannot be read as a value
fails the row. -/
def rowValues (schema : Schema) (cells : List Cell) : Except Fault (List Value) :=
  (schema.zip cells).mapM fun (c : Field DataType × Cell) => valueAt rt c.1.dataType c.2

/-- One row as one item: its values alone, or under the names of their columns. -/
def RowShape.item (schema : Schema) : RowShape → List Value → Value
  | .array, values => .array values
  | .map, values => .map ((schema.map fun f => Value.text f.name).zip values)

def rowItem (schema : Schema) (shape : RowShape) (cells : List Cell) : Except Fault Value :=
  (rowValues rt schema cells).map (shape.item schema)

/-- The wire bytes of one item, in normal form if the option asks for it.  The normal form is
taken of the whole item, so the keys of a row are ordered like those of any map inside it. -/
def itemBytes (wire : Wire) (canonical : Option Canon) (item : Value) : Except Fault Bytes :=
  let item :=
    match canonical with
    | some mode => canonicalize codecs.cbor mode item
    | none => item
  match wire.encodeRow rt.fp codecs item with
  | .ok bytes => .ok bytes
  | .error e => .error (.runtimeError s!"{wire.format}: {e}")

/-! ## Deterministic output -/

/-- `canonicalize` computes a normal form: its maps are ordered at every depth, it
only permutes entries, it is idempotent, and values that differ only in the order of
entries, none of whose maps repeats a key, have the same canonical value, the same
`canonical` bytes and the same bytes in a file written with the option set. -/
theorem canonicalize_normal_form (mode : Canon) (hcodec : codecs.cbor.Injective) :
    (∀ v, (canonicalize codecs.cbor mode v).EveryMap (EntriesOrdered codecs.cbor mode)) ∧
    (∀ v, Reorders v (canonicalize codecs.cbor mode v)) ∧
    (∀ v, canonicalize codecs.cbor mode (canonicalize codecs.cbor mode v) =
      canonicalize codecs.cbor mode v) ∧
    (∀ v w, Reorders v w → v.EveryMap (KeysDistinct codecs.cbor mode) →
      canonicalize codecs.cbor mode v = canonicalize codecs.cbor mode w ∧
      (∀ bv bw, parseStrict codecs.cbor bv = .ok v → parseStrict codecs.cbor bw = .ok w →
        canonical codecs.cbor bv mode = canonical codecs.cbor bw mode) ∧
      itemBytes rt codecs .cbor (some mode) v = itemBytes rt codecs .cbor (some mode) w) := by
  refine ⟨canonicalize_ordered, reorders_canonicalize, canonicalize_idempotent, ?_⟩
  intro v w hreorders hkeys
  have hsame := (hreorders.canonicalize_eq hcodec hkeys).2
  refine ⟨hsame, fun bv bw hv hw => canonical_eq_of_reorders hcodec hv hw hreorders hkeys, ?_⟩
  simp only [itemBytes, hsame]

/-- The concrete codecs, for statements about fixed inputs. -/
def concreteCodecs : Codecs := ⟨Definite.codec, FixMsgpack.codec⟩

/-- Two entries, and the same two swapped. -/
def unordered : Value := .map [(.text "b", .bool true), (.text "a", .null)]

@[inherit_doc unordered]
def ordered : Value := .map [(.text "a", .null), (.text "b", .bool true)]

theorem canonicalize_normal_form_swapped :
    canonicalize concreteCodecs.cbor .core unordered =
        canonicalize concreteCodecs.cbor .core ordered ∧
      canonical concreteCodecs.cbor (Definite.encode unordered) .core =
        canonical concreteCodecs.cbor (Definite.encode ordered) .core ∧
      itemBytes .bare concreteCodecs .cbor (some .core) unordered =
        itemBytes .bare concreteCodecs .cbor (some .core) ordered := by
  have hnormal := canonicalize_normal_form .bare concreteCodecs .core Definite.codec_injective
  have hreorders : Reorders unordered ordered := .perm (.swap _ _ _)
  have hkeys : unordered.EveryMap (KeysDistinct concreteCodecs.cbor .core) := by
    simp [unordered, KeysDistinct, canonicalize, Value.EveryMap]
  obtain ⟨hvalue, hbytes, hitem⟩ := hnormal.2.2.2 _ _ hreorders hkeys
  have hparse (v : Value) (hdepth : v.depth ≤ MAX_NESTING) :
      parseStrict concreteCodecs.cbor (Definite.encode v) = .ok v := by
    have hread := (Definite.codec_roundTrips.keeps v).parseStrict_encode rfl
    rwa [if_pos hdepth] at hread
  exact ⟨hvalue, hbytes _ _ (hparse _ (by decide)) (hparse _ (by decide)), hitem⟩

end VgiCbor.Copy
