import Mathlib

/-!
# Framed data

A reader walks over a buffer and keeps its position.  Bytes are a frame when they are read as
a value wherever they stand in a buffer, and a buffer that ends within them is too short
(`Framed`).  Frames in a row are a frame (`Framed.bind`, `Framed.times`): so a message made of
numbers of fixed width and strings with their lengths in front is read back exactly, and no
part of it passes for a message (`Framed.message`).
-/

namespace Frames

variable {α β ε : Type}

/-! ## Parts of a buffer -/

/-- The `n` bytes at a position. -/
def load (buffer : List UInt8) (pos n : Nat) : List UInt8 := (buffer.drop pos).take n

/-- Write into a buffer at a position, if there is room. -/
def store (buffer : List UInt8) (pos : Nat) (bytes : List UInt8) : Option (List UInt8) :=
  if pos + bytes.length ≤ buffer.length then
    some (buffer.take pos ++ bytes ++ buffer.drop (pos + bytes.length))
  else none

@[simp] theorem load_middle (front bytes rest : List UInt8) :
    load (front ++ bytes ++ rest) front.length bytes.length = bytes := by
  rw [load, List.append_assoc, List.drop_left, List.take_left]

/-- A buffer with room for the bytes takes them, and keeps its length. -/
theorem store_some {buffer bytes : List UInt8} {pos : Nat}
    (h : pos + bytes.length ≤ buffer.length) :
    ∃ after, store buffer pos bytes = some after ∧ after.length = buffer.length := by
  refine ⟨_, if_pos h, ?_⟩
  simp only [List.length_append, List.length_take, List.length_drop]
  omega

theorem load_store_same {buffer after bytes : List UInt8} {pos : Nat}
    (h : store buffer pos bytes = some after) : load after pos bytes.length = bytes := by
  rw [store] at h
  split at h
  · next hroom =>
      cases h
      have hpos : (buffer.take pos).length = pos := by
        rw [List.length_take]
        omega
      have hload := load_middle (buffer.take pos) bytes (buffer.drop (pos + bytes.length))
      rwa [hpos] at hload
  · cases h

/-- Elsewhere nothing is written. -/
theorem load_store_disjoint {buffer after bytes : List UInt8} {pos pos' n : Nat}
    (h : store buffer pos bytes = some after) (hapart : pos' + n ≤ pos ∨ pos + bytes.length ≤ pos') :
    load after pos' n = load buffer pos' n := by
  rw [store] at h
  split at h
  · next hroom =>
      cases h
      apply List.ext_getElem?
      intro i
      simp only [load, List.getElem?_take, List.getElem?_drop]
      split
      · next hi =>
          rcases hapart with hbefore | hbehind
          · rw [List.append_assoc, List.getElem?_append_left (by rw [List.length_take]; omega),
              List.getElem?_take_of_lt (by omega)]
          · have hlen : (buffer.take pos ++ bytes).length = pos + bytes.length := by
              rw [List.length_append, List.length_take]
              omega
            rw [List.getElem?_append_right (by omega), hlen, List.getElem?_drop]
            congr 1
            omega
      · rfl
  · cases h

/-- Write one piece behind the other. -/
def fill (buffer : List UInt8) (pos : Nat) : List (List UInt8) → Option (List UInt8)
  | [] => some buffer
  | piece :: pieces =>
      (store buffer pos piece).bind fun buffer => fill buffer (pos + piece.length) pieces

/-- Pieces that take up exactly the rest of a buffer are all stored behind what it holds, so
the buffer is what was there and the pieces. -/
theorem fill_eq (written room : List UInt8) {pieces : List (List UInt8)}
    (h : pieces.flatten.length = room.length) :
    fill (written ++ room) written.length pieces = some (written ++ pieces.flatten) := by
  induction pieces generalizing written room with
  | nil =>
      obtain rfl : room = [] := List.length_eq_zero_iff.1 h.symm
      rfl
  | cons piece pieces ih =>
      rw [List.flatten_cons, List.length_append] at h
      have hstore : store (written ++ room) written.length piece =
          some ((written ++ piece) ++ room.drop piece.length) := by
        rw [store, if_pos (by rw [List.length_append]; omega), List.take_left, List.drop_append,
          List.drop_eq_nil_of_le (by omega), List.nil_append, Nat.add_sub_cancel_left]
      have hrest := ih (written ++ piece) (room.drop piece.length) (by
        rw [List.length_drop]
        omega)
      rw [fill, hstore, Option.bind_some, ← List.length_append, hrest, List.flatten_cons,
        List.append_assoc]

/-! ## Readers -/

/-- Code that reads in a buffer and moves its position. -/
abbrev Reader (ε : Type) : Type → Type := ReaderT (List UInt8) (StateT Nat (Except ε))

/-- The same reader so many times. -/
def Reader.times (r : Reader ε α) : Nat → Reader ε (List α)
  | 0 => pure []
  | n + 1 => do
      let a ← r
      let as ← r.times n
      return a :: as

/-- In a buffer of at most `room` bytes these bytes are read as the value, wherever they
stand, and the position moves behind them. -/
def Reads (room : Nat) (r : Reader ε α) (bytes : List UInt8) (a : α) : Prop :=
  ∀ front rest : List UInt8, (front ++ bytes ++ rest).length ≤ room →
    r (front ++ bytes ++ rest) front.length = .ok (a, (front ++ bytes).length)

/-- Such bytes, and a buffer of at most `room` bytes that ends within them is too short.
Frames compose: a message is a frame of frames. -/
structure Framed (room : Nat) (short : ε) (r : Reader ε α) (bytes : List UInt8) (a : α) : Prop where
  reads : Reads room r bytes a
  cut : ∀ (front : List UInt8) (k : Nat), k < bytes.length → (front ++ bytes.take k).length ≤ room →
    r (front ++ bytes.take k) front.length = .error short

variable {room : Nat} {short : ε} {r : Reader ε α} {f : α → Reader ε β}
  {bytes more : List UInt8} {a : α} {b : β}

theorem run_bind_ok {buffer : List UInt8} {pos next : Nat} (h : r buffer pos = .ok (a, next)) :
    (r >>= f) buffer pos = f a buffer next := by
  change (r buffer pos).bind (fun p => f p.1 buffer p.2) = _
  rw [h]
  rfl

theorem run_bind_error {buffer : List UInt8} {pos : Nat} {e : ε} (h : r buffer pos = .error e) :
    (r >>= f) buffer pos = .error e := by
  change (r buffer pos).bind (fun p => f p.1 buffer p.2) = _
  rw [h]
  rfl

/-- A value for which nothing is read. -/
theorem Reads.pure (a : α) : Reads room (pure a : Reader ε α) [] a := fun front rest _ => by
  rw [List.append_nil]
  rfl

theorem Framed.pure (a : α) : Framed room short (Pure.pure a : Reader ε α) [] a where
  reads := .pure a
  cut _ k hk := absurd hk (Nat.not_lt_zero k)

theorem Reads.bind (h : Reads room r bytes a) (h' : Reads room (f a) more b) :
    Reads room (r >>= f) (bytes ++ more) b := by
  intro front rest hroom
  have hfirst := h front (more ++ rest) (by simpa using hroom)
  have hthen := h' (front ++ bytes) rest (by simpa using hroom)
  simp only [List.append_assoc] at hfirst hthen ⊢
  rw [run_bind_ok hfirst, hthen]

theorem Framed.bind (h : Framed room short r bytes a) (h' : Framed room short (f a) more b) :
    Framed room short (r >>= f) (bytes ++ more) b where
  reads := h.reads.bind h'.reads
  cut front k hk hroom := by
    by_cases hfirst : k < bytes.length
    · rw [List.take_append_of_le_length (Nat.le_of_lt hfirst)] at hroom ⊢
      exact run_bind_error (h.cut front k hfirst hroom)
    · rw [List.length_append] at hk
      rw [List.take_append, List.take_of_length_le (not_lt.1 hfirst), ← List.append_assoc] at hroom ⊢
      rw [run_bind_ok (h.reads front _ hroom)]
      exact h'.cut (front ++ bytes) (k - bytes.length) (by omega) hroom

/-- What is made of a value without reading more. -/
theorem Reads.andThen (h : Reads room r bytes a) (h' : f a = Pure.pure b) :
    Reads room (r >>= f) bytes b := by
  have hthen := h.bind (f := f) (h' ▸ Reads.pure b)
  rwa [List.append_nil] at hthen

theorem Framed.andThen (h : Framed room short r bytes a) (h' : f a = Pure.pure b) :
    Framed room short (r >>= f) bytes b := by
  have hthen := h.bind (f := f) (h' ▸ Framed.pure b)
  rwa [List.append_nil] at hthen

/-- Frames in a row. -/
theorem Reads.times {pieces : List (List UInt8)} {as : List α}
    (h : List.Forall₂ (Reads room r) pieces as) :
    Reads room (r.times as.length) pieces.flatten as := by
  induction h with
  | nil => exact .pure []
  | @cons piece a pieces as hpiece _ ih =>
      rw [List.flatten_cons, List.length_cons]
      exact hpiece.bind (ih.andThen rfl)

theorem Framed.times {pieces : List (List UInt8)} {as : List α}
    (h : List.Forall₂ (Framed room short r) pieces as) :
    Framed room short (r.times as.length) pieces.flatten as := by
  induction h with
  | nil => exact .pure []
  | @cons piece a pieces as hpiece _ ih =>
      rw [List.flatten_cons, List.length_cons]
      exact hpiece.bind (ih.andThen rfl)

/-- A message that is the whole buffer is read, and no proper part of it is: the reader
reports that it is too short. -/
theorem Framed.message (h : Framed room short r bytes a) (hroom : bytes.length ≤ room) :
    r bytes 0 = .ok (a, bytes.length) ∧ ∀ k < bytes.length, r (bytes.take k) 0 = .error short := by
  constructor
  · have hwhole := h.reads [] [] (by simpa using hroom)
    simpa using hwhole
  · intro k hk
    exact h.cut [] k hk (by rw [List.nil_append, List.length_take]; omega)

/-! ## Numbers of fixed width -/

/-- The low `width` bytes of a number, least significant first. -/
def toLe : Nat → Nat → List UInt8
  | 0, _ => []
  | width + 1, n => UInt8.ofNat n :: toLe width (n / 256)

/-- The number denoted by a byte string, least significant byte first. -/
def ofLe : List UInt8 → Nat
  | [] => 0
  | b :: bytes => b.toNat + 256 * ofLe bytes

@[simp] theorem toLe_length (width n : Nat) : (toLe width n).length = width := by
  induction width generalizing n with
  | zero => rfl
  | succ width ih => rw [toLe, List.length_cons, ih]

/-- Writing and reading back keeps the digits that fit. -/
theorem ofLe_toLe (width n : Nat) : ofLe (toLe width n) = n % 256 ^ width := by
  induction width generalizing n with
  | zero => rw [toLe, ofLe, Nat.pow_zero, Nat.mod_one]
  | succ width ih =>
      rw [toLe, ofLe, ih, Nat.pow_succ', Nat.mod_mul]
      simp

/-- A string behind its length. -/
def sized (width : Nat) (bytes : List UInt8) : List UInt8 := toLe width bytes.length ++ bytes

theorem sized_length (width : Nat) (bytes : List UInt8) :
    (sized width bytes).length = width + bytes.length := by
  rw [sized, List.length_append, toLe_length]

end Frames
