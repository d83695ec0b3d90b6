import VgiCbor.Lib.ItemStream

/-!
# A buffer in front of a source of bytes

A `BufReader` puts a buffer in front of a `ByteSource`, whose reads can fail.  It is a
buffered reader that fails where a read of the source does.
-/

namespace ItemStream

variable {σ : Type}

/-- A source of bytes whose reads can fail.  A read that does not fail takes bytes off the
front, and none only at the end. -/
structure ByteSource (σ : Type) where
  read : σ → Nat → Except String (List UInt8) × σ
  remaining : σ → List UInt8
  read_spec : ∀ s room, 0 < room → (∃ e s', read s room = (.error e, s')) ∨
    ∃ out s', read s room = (.ok out, s') ∧ remaining s = out ++ remaining s' ∧
      (out = [] → remaining s = [])

/-- A source with a buffer: what the last read filled it with, and how much of it was
consumed. -/
structure BufReader (σ : Type) where
  inner : σ
  buf : List UInt8
  pos : Nat

namespace BufReader

variable (source : ByteSource σ) (capacity : Nat)

/-- A buffer with nothing in it. -/
def new (inner : σ) : BufReader σ := ⟨inner, [], 0⟩

/-- The rest of the buffer, filled from the source when it is used up.  A failed read of the
source is passed on. -/
def fillBuf (s : BufReader σ) : Except String (List UInt8) × BufReader σ :=
  if s.buf.length ≤ s.pos then
    match source.read s.inner capacity with
    | (.ok buf, inner) => (.ok buf, ⟨inner, buf, 0⟩)
    | (.error e, inner) => (.error e, ⟨inner, [], 0⟩)
  else (.ok (s.buf.drop s.pos), s)

/-- Step over bytes of the buffer. -/
def consume (amount : Nat) (s : BufReader σ) : BufReader σ :=
  { s with pos := min (s.pos + amount) s.buf.length }

/-- What is in the buffer, and then what is in the source: all that will be read unless a read
fails. -/
def remaining (s : BufReader σ) : List UInt8 := s.buf.drop s.pos ++ source.remaining s.inner

theorem remaining_consume (s : BufReader σ) {amount : Nat}
    (h : amount ≤ (s.buf.drop s.pos).length) :
    (s.consume amount).remaining source = (s.remaining source).drop amount := by
  rw [List.length_drop] at h
  simp only [remaining, consume]
  rw [List.drop_append_of_le_length (by rw [List.length_drop]; exact h), List.drop_drop]
  rcases Nat.le_total (s.pos + amount) s.buf.length with hle | hle
  · rw [Nat.min_eq_left hle]
  · rw [Nat.min_eq_right hle, List.drop_eq_nil_of_le le_rfl, List.drop_eq_nil_of_le hle]

/-- A buffered source is a buffered reader that fails where the source does.  What the buffer
does to the sizes of the reads does not show. -/
def reader (hcapacity : 0 < capacity) : FailingBufRead (BufReader σ) where
  fillBuf := fillBuf source capacity
  consume := consume
  remaining := remaining source
  fillBuf_spec s := by
    unfold fillBuf
    by_cases hempty : s.buf.length ≤ s.pos
    · have hrest : s.buf.drop s.pos = [] := List.drop_eq_nil_of_le hempty
      rcases source.read_spec s.inner capacity hcapacity with
        ⟨e, inner, hread⟩ | ⟨buf, inner, hread, hremaining, hend⟩
      · exact .inl ⟨e, ⟨inner, [], 0⟩, by rw [if_pos hempty, hread]⟩
      · have hkeep : remaining source ⟨inner, buf, 0⟩ = remaining source s := by
          rw [remaining, remaining, hrest, hremaining]
          rfl
        refine .inr ⟨buf, ⟨inner, buf, 0⟩, by rw [if_pos hempty, hread], ?_, ?_, hkeep, ?_⟩
        · rw [← hkeep]
          exact List.prefix_append _ _
        · intro hnil
          rw [remaining, hrest, hend hnil]
          rfl
        · intro k hk
          rw [remaining_consume source _ hk, hkeep]
    · refine .inr ⟨s.buf.drop s.pos, s, by rw [if_neg hempty], List.prefix_append _ _, ?_, rfl,
        fun k hk => remaining_consume source s hk⟩
      intro hnil
      rw [List.drop_eq_nil_iff] at hnil
      exact absurd hnil hempty

/-- The buffered reader fails only where a read of the source does. -/
theorem reader_fails {hcapacity : 0 < capacity} {e : String}
    (h : (reader source capacity hcapacity).Fails e) :
    ∃ inner inner', source.read inner capacity = (.error e, inner') := by
  obtain ⟨s, s', hfill⟩ := h
  simp only [reader, fillBuf] at hfill
  split at hfill
  · split at hfill
    · cases hfill
    next e' inner hread =>
      cases hfill
      exact ⟨s.inner, inner, hread⟩
  · cases hfill

end BufReader

end ItemStream
