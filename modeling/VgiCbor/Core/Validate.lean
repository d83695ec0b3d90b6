import VgiCbor.Core.Value

/-!
# Well-formedness checks

`isValid` asks for one complete item; `wellFormed` also refuses duplicate map keys, and
says what is wrong.
-/

namespace VgiCbor

/-- The structured result of `well_formed`: whether the blob is well formed, and if not of
which kind the defect is, with its text. -/
structure WellFormed where
  ok : Bool
  error : Option String
  kind : Option String

/-- The result for an error. -/
def WellFormed.ofError (e : DecodeError) : WellFormed := ⟨false, some e.text, some e.kind⟩

variable (codec : CborCodec)

def isValid (bytes : Bytes) : Bool := (parseStrict codec bytes).isOk

def wellFormed (bytes : Bytes) : WellFormed :=
  match parseStrict codec bytes with
  | .ok value => if hasDuplicateKeys value then .ofError .duplicateKey else ⟨true, none, none⟩
  | .error e => .ofError e

variable {codec}

/-- Well formed is one item without duplicate keys. -/
theorem wellFormed_ok_iff {bytes : Bytes} :
    (wellFormed codec bytes).ok = true ↔
      ∃ v, parseStrict codec bytes = .ok v ∧ hasDuplicateKeys v = false := by
  unfold wellFormed
  cases parseStrict codec bytes with
  | error e => simp [WellFormed.ofError]
  | ok value =>
      cases hdup : hasDuplicateKeys value with
      | true => simp [WellFormed.ofError, hdup]
      | false => simp [hdup]

end VgiCbor
