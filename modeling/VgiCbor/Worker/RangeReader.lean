import VgiCbor.Core.Value

/-!
# Streaming a remote object

`RangeReader` reads a remote object in ranges of a fixed size, on demand.  It keeps the
position behind what was fetched, the current chunk and how much of it was handed out, and
learns the size of the object from the first response.  Whatever the buffers of the caller
and however short the responses, the reads hand out the object and then nothing
(`reads_deliver_object`).  Positions are natural numbers, and stay below `2^64` for every
object that leaves room for a chunk.
-/

namespace VgiCbor.Cloud

/-! ## The store -/

/-- What is asked of a store about one object: a range of its bytes, or its size. -/
inductive Request where
  | get (start stop : Nat)
  | head

/-- A store may answer a request by what it was asked before: `get_opts` with a bounded
range gives bytes and the size in the metadata, `head` the size only. -/
structure ObjectStore where
  get : List Request → Nat → Nat → Except String (Bytes × Nat)
  head : List Request → Except String Nat

/-- The store serves the object: a request that starts inside it is answered with some of the
bytes asked for, from the first on, and with the true size.  Requests fail for an empty
object only, whose size `head` reports. -/
structure ObjectStore.Serves (store : ObjectStore) (object : Bytes) : Prop where
  get_inside : ∀ log start stop, start < stop → start < object.length →
    ∃ bytes, store.get log start stop = .ok (bytes, object.length) ∧ bytes ≠ [] ∧
      bytes <+: (object.drop start).take (stop - start)
  get_empty : object = [] → ∀ log start stop, ∃ e, store.get log start stop = .error e
  head_empty : object = [] → ∀ log, store.head log = .ok 0

/-! ## The reader -/

structure RangeReader where
  /-- Total size, known from the first response on. -/
  size : Option Nat
  /-- The next offset to fetch. -/
  pos : Nat
  /-- The current chunk. -/
  buf : Bytes
  /-- How much of it was handed out. -/
  off : Nat

/-- A reader and the requests it has issued, the latest first.  The store's answer to a
request may depend on those before it. -/
structure Session where
  reader : RangeReader
  requests : List Request

/-- `range_reader`: nothing is requested yet. -/
def rangeReader : Session := ⟨⟨none, 0, [], 0⟩, []⟩

/-- Hand out what the caller has room for, from the current chunk. -/
def RangeReader.handOut (r : RangeReader) (room : Nat) : Bytes × RangeReader :=
  let n := min (r.buf.length - r.off) room
  ((r.buf.drop r.off).take n, { r with off := r.off + n })

/-- The end of the range that is asked for next.  Once the size is known it is never passed. -/
def RangeReader.stop (chunk : Nat) (r : RangeReader) : Nat :=
  match r.size with
  | some size => min (r.pos + chunk) size
  | none => r.pos + chunk

/-- The size is known, and everything is fetched. -/
def RangeReader.atEnd (r : RangeReader) : Bool := r.size.any (· ≤ r.pos)

variable (store : ObjectStore) (chunk : Nat) (url : String)

/-- Fetch the next chunk and hand out the first of it.  While the size is unknown, a failed
request may be that of an empty object, so the size is asked for. -/
def fetch (s : Session) (room : Nat) : Except String Bytes × Session :=
  let r := s.reader
  let start := r.pos
  let stop := r.stop chunk
  let log := .get start stop :: s.requests
  match store.get s.requests start stop with
  | .ok (bytes, size) =>
      -- Advance by the bytes received, not by the range asked for.
      let r := { size := some size, pos := start + bytes.length, buf := bytes, off := 0 }
      if bytes.isEmpty then (.ok [], ⟨r, log⟩)
      else
        let (out, r) := r.handOut room
        (.ok out, ⟨r, log⟩)
  | .error e =>
      let failure := .error s!"read {url} bytes {start}..{stop}: {e}"
      if r.size.isNone then
        -- An empty object satisfies no range: ask for the size before giving up.
        match store.head log with
        | .ok size =>
            if size = 0 then (.ok [], ⟨{ r with size := some 0 }, .head :: log⟩)
            else (failure, ⟨r, .head :: log⟩)
        | .error _ => (failure, ⟨r, .head :: log⟩)
      else (failure, ⟨r, log⟩)

/-- `read` into a buffer with room for so many bytes.  A request is issued only when the
current chunk is used up. -/
def read (s : Session) (room : Nat) : Except String Bytes × Session :=
  if s.reader.buf.length ≤ s.reader.off then
    if s.reader.atEnd then (.ok [], s) else fetch store chunk url s room
  else
    let (out, r) := s.reader.handOut room
    (.ok out, { s with reader := r })

def reads (s : Session) : List Nat → List (Except String Bytes) × Session
  | [] => ([], s)
  | room :: rooms =>
      let (out, s) := read store chunk url s room
      let (outs, s) := reads s rooms
      (out :: outs, s)

/-! ## What a reader holds -/

/-- What a reader holds when `delivered` was handed out: the rest of the chunk continues it
up to the position. -/
structure Holds (object delivered : Bytes) (r : RangeReader) : Prop where
  fetched : delivered ++ r.buf.drop r.off = object.take r.pos
  pos_le : r.pos ≤ object.length
  size_eq : ∀ size, r.size = some size → size = object.length
  unknown : r.size = none → r.pos = 0

theorem rangeReader_holds (object : Bytes) : Holds object [] rangeReader.reader where
  fetched := rfl
  pos_le := Nat.zero_le _
  size_eq _ h := by cases h
  unknown _ := rfl

variable {store chunk url} {object delivered : Bytes}

theorem Holds.prefix {r : RangeReader} (h : Holds object delivered r) : delivered <+: object :=
  (List.prefix_append _ _).trans (h.fetched ▸ List.take_prefix _ _)

/-- Handing out moves bytes from the chunk to the delivered ones. -/
theorem Holds.handOut {r : RangeReader} (h : Holds object delivered r) (room : Nat) :
    Holds object (delivered ++ (r.handOut room).1) (r.handOut room).2 where
  fetched := by
    have hrest : (r.buf.drop r.off).take (min (r.buf.length - r.off) room) ++
        r.buf.drop (r.off + min (r.buf.length - r.off) room) = r.buf.drop r.off := by
      rw [← List.drop_drop, List.take_append_drop]
    simp only [RangeReader.handOut, List.append_assoc, hrest]
    exact h.fetched
  pos_le := h.pos_le
  size_eq := h.size_eq
  unknown := h.unknown

/-- Something is handed out if there is something, and room for it. -/
theorem handOut_ne_nil {r : RangeReader} {room : Nat} (hoff : r.off < r.buf.length)
    (hroom : 0 < room) : (r.handOut room).1 ≠ [] := by
  apply List.ne_nil_of_length_pos
  simp only [RangeReader.handOut, List.length_take, List.length_drop]
  omega

/-! ## One read -/

/-- A request inside an object that is served continues what was delivered, also if the answer
is shorter than the range. -/
theorem holds_fetched {r : RangeReader} (h : Holds object delivered r)
    (hrest : r.buf.length ≤ r.off) {bytes : Bytes} {stop : Nat}
    (hfront : bytes <+: (object.drop r.pos).take (stop - r.pos)) :
    Holds object delivered ⟨some object.length, r.pos + bytes.length, bytes, 0⟩ := by
  have hdelivered : delivered = object.take r.pos := by
    have hfetched := h.fetched
    rwa [List.drop_eq_nil_of_le hrest, List.append_nil] at hfetched
  have hbytes : bytes <+: object.drop r.pos := hfront.trans (List.take_prefix _ _)
  have hle := hbytes.length_le
  have hpos := h.pos_le
  rw [List.length_drop] at hle
  refine ⟨?_, by simp only; omega, fun size heq => (Option.some.inj heq).symm, by simp⟩
  rw [hdelivered, List.drop_zero, List.take_add, ← List.prefix_iff_eq_take.1 hbytes]

theorem atEnd_eq_true_iff {r : RangeReader} :
    r.atEnd = true ↔ ∃ size, r.size = some size ∧ size ≤ r.pos := by
  simp [RangeReader.atEnd, Option.any_eq_true]

/-- Before the end of an object there is a byte to ask for.  So the range of the next request
is not empty. -/
theorem Holds.pos_lt {r : RangeReader} (h : Holds object delivered r) (hend : r.atEnd = false)
    (hne : object ≠ []) : r.pos < object.length := by
  have hlength := List.length_pos_iff.2 hne
  cases hsize : r.size with
  | none =>
      have hzero := h.unknown hsize
      omega
  | some size =>
      by_contra hle
      have heq := h.size_eq size hsize
      have htrue := atEnd_eq_true_iff.2 ⟨size, hsize, by omega⟩
      rw [htrue] at hend
      cases hend

theorem Holds.lt_stop {r : RangeReader} (h : Holds object delivered r) (hchunk : 0 < chunk)
    (hpos : r.pos < object.length) : r.pos < r.stop chunk := by
  unfold RangeReader.stop
  cases hsize : r.size with
  | none =>
      simp only
      omega
  | some size =>
      have heq := h.size_eq size hsize
      simp only
      omega

/-- The first read of an empty object learns its size. -/
theorem fetch_empty (hstore : store.Serves object) {s : Session}
    (h : Holds object delivered s.reader) (hend : s.reader.atEnd = false)
    (hempty : object = []) (room : Nat) :
    ∃ s', fetch store chunk url s room = (.ok [], s') ∧ Holds object delivered s'.reader ∧
      s'.reader.atEnd = true := by
  obtain ⟨e, he⟩ := hstore.get_empty hempty s.requests s.reader.pos (s.reader.stop chunk)
  have hhead := hstore.head_empty hempty
    (.get s.reader.pos (s.reader.stop chunk) :: s.requests)
  have hunknown : s.reader.size = none := by
    cases hsize : s.reader.size with
    | none => rfl
    | some size =>
        have hzero := h.size_eq size hsize
        rw [hempty, List.length_nil] at hzero
        have htrue := atEnd_eq_true_iff.2 ⟨size, hsize, by omega⟩
        rw [htrue] at hend
        cases hend
  refine ⟨⟨{ s.reader with size := some 0 }, .head :: .get s.reader.pos (s.reader.stop chunk) ::
    s.requests⟩, ?_, ⟨h.fetched, h.pos_le, ?_, by simp⟩, rfl⟩
  · simp only [fetch, he, hunknown, hhead, Option.isNone_none, if_true]
  · rintro size ⟨⟩
    rw [hempty, List.length_nil]

/-- A fetch inside an object hands out something. -/
theorem fetch_inside (hstore : store.Serves object) (hchunk : 0 < chunk) {s : Session}
    (h : Holds object delivered s.reader) (hrest : s.reader.buf.length ≤ s.reader.off)
    (hpos : s.reader.pos < object.length) {room : Nat} (hroom : 0 < room) :
    ∃ out s', fetch store chunk url s room = (.ok out, s') ∧
      Holds object (delivered ++ out) s'.reader ∧ out ≠ [] := by
  obtain ⟨bytes, hget, hne, hfront⟩ := hstore.get_inside s.requests s.reader.pos
    (s.reader.stop chunk) (h.lt_stop hchunk hpos) hpos
  have hholds := holds_fetched h hrest hfront
  have hout := @handOut_ne_nil ⟨some object.length, s.reader.pos + bytes.length, bytes, 0⟩ room
    (List.length_pos_iff.2 hne) hroom
  refine ⟨_, ⟨_, .get s.reader.pos (s.reader.stop chunk) :: s.requests⟩, ?_,
    hholds.handOut room, hout⟩
  rw [fetch]
  simp only [hget, List.isEmpty_eq_false_iff.2 hne, Bool.false_eq_true, if_false]

/-- One read hands out the next bytes, or nothing at the end of the object.  This is the step
that a run is made of. -/
theorem read_spec (hstore : store.Serves object) (hchunk : 0 < chunk) {s : Session}
    (h : Holds object delivered s.reader) {room : Nat} (hroom : 0 < room) :
    ∃ out s', read store chunk url s room = (.ok out, s') ∧
      Holds object (delivered ++ out) s'.reader ∧
      (out = [] → delivered = object ∧ s'.reader.atEnd = true) := by
  unfold read
  by_cases hrest : s.reader.buf.length ≤ s.reader.off
  · rw [if_pos hrest]
    by_cases hend : s.reader.atEnd = true
    · -- Everything is fetched, and nothing of it is left in the chunk.
      rw [if_pos hend]
      refine ⟨[], s, rfl, by rwa [List.append_nil], fun _ => ⟨?_, hend⟩⟩
      obtain ⟨size, hsize, hle⟩ := atEnd_eq_true_iff.1 hend
      have heq := h.size_eq size hsize
      have hfetched := h.fetched
      rwa [List.drop_eq_nil_of_le hrest, List.append_nil,
        List.take_of_length_le (by omega)] at hfetched
    · rw [if_neg hend]
      rw [Bool.not_eq_true] at hend
      by_cases hempty : object = []
      · obtain ⟨s', hfetch, hholds, hend'⟩ := @fetch_empty store chunk url _ _ hstore s h hend
          hempty room
        refine ⟨[], s', hfetch, by rwa [List.append_nil], fun _ => ⟨?_, hend'⟩⟩
        rw [hempty]
        exact List.prefix_nil.1 (hempty ▸ h.prefix)
      · obtain ⟨out, s', hfetch, hholds, hne⟩ := @fetch_inside store chunk url _ _ hstore hchunk s h
          hrest (h.pos_lt hend hempty) room hroom
        exact ⟨out, s', hfetch, hholds, fun hnil => absurd hnil hne⟩
  · rw [if_neg hrest]
    exact ⟨_, _, rfl, h.handOut room,
      fun hnil => absurd hnil (handOut_ne_nil (not_le.1 hrest) hroom)⟩

/-- At the end no request is issued, and the end stays known. -/
theorem read_atEnd {s : Session} (hend : s.reader.atEnd = true) (room : Nat) :
    (read store chunk url s room).2.requests = s.requests ∧
      (read store chunk url s room).2.reader.atEnd = true := by
  unfold read
  by_cases hrest : s.reader.buf.length ≤ s.reader.off
  · rw [if_pos hrest, if_pos hend]
    exact ⟨rfl, hend⟩
  · rw [if_neg hrest]
    exact ⟨rfl, hend⟩

/-! ## A run of reads -/

theorem reads_atEnd {s : Session} (hend : s.reader.atEnd = true) (rooms : List Nat) :
    (reads store chunk url s rooms).2.requests = s.requests ∧
      (reads store chunk url s rooms).2.reader.atEnd = true := by
  induction rooms generalizing s with
  | nil => exact ⟨rfl, hend⟩
  | cons room rooms ih =>
      obtain ⟨hlog, hend'⟩ := @read_atEnd store chunk url s hend room
      obtain ⟨hlogs, hends⟩ := ih hend'
      exact ⟨hlogs.trans hlog, hends⟩

/-- A run hands out pieces of the object in order, and nothing once it is handed out.  The
empty pieces can only stand at the end. -/
theorem reads_spec (hstore : store.Serves object) (hchunk : 0 < chunk) {rooms : List Nat}
    (hrooms : ∀ room ∈ rooms, 0 < room) {s : Session} (h : Holds object delivered s.reader) :
    ∃ pieces n, (reads store chunk url s rooms).1 = (pieces ++ List.replicate n []).map .ok ∧
      (∀ piece ∈ pieces, piece ≠ []) ∧ delivered ++ pieces.flatten <+: object ∧
      (0 < n → delivered ++ pieces.flatten = object ∧
        (reads store chunk url s rooms).2.reader.atEnd = true) := by
  induction rooms generalizing s delivered with
  | nil => exact ⟨[], 0, rfl, by simp, by simpa using h.prefix, by simp⟩
  | cons room rooms ih =>
      obtain ⟨hroom, hrooms⟩ := List.forall_mem_cons.1 hrooms
      obtain ⟨out, s', hread, hholds, hnothing⟩ := @read_spec store chunk url _ _ hstore hchunk s h
        room hroom
      obtain ⟨pieces, n, houts, hne, hfront, hall⟩ := ih hrooms hholds
      have hsplit : reads store chunk url s (room :: rooms) =
          (.ok out :: (reads store chunk url s' rooms).1, (reads store chunk url s' rooms).2) := by
        rw [reads, hread]
      rw [hsplit, houts]
      by_cases hnil : out = []
      · -- The object is handed out, so there are no more pieces.
        obtain ⟨hwhole, hend⟩ := hnothing hnil
        have hflatten : pieces.flatten = [] := by
          rw [hnil, List.append_nil, hwhole] at hfront
          have hlength := hfront.length_le
          rw [List.length_append] at hlength
          exact List.length_eq_zero_iff.1 (by omega)
        obtain rfl : pieces = [] := by
          cases pieces with
          | nil => rfl
          | cons piece pieces =>
              rw [List.flatten_cons, List.append_eq_nil_iff] at hflatten
              exact absurd hflatten.1 (hne piece List.mem_cons_self)
        refine ⟨[], n + 1, ?_, by simp, ?_, fun _ => ⟨?_, (reads_atEnd hend rooms).2⟩⟩
        · rw [hnil]
          rfl
        · rw [hwhole]
          simp
        · rw [hwhole]
          simp
      · refine ⟨out :: pieces, n, rfl, ?_, ?_, ?_⟩
        · exact List.forall_mem_cons.2 ⟨hnil, hne⟩
        · rwa [List.flatten_cons, ← List.append_assoc]
        · rwa [List.flatten_cons, ← List.append_assoc]

theorem reads_length (s : Session) (rooms : List Nat) :
    (reads store chunk url s rooms).1.length = rooms.length := by
  induction rooms generalizing s with
  | nil => rfl
  | cons room rooms ih => exact congrArg Nat.succ (ih _)

theorem length_le_flatten {pieces : List Bytes} (h : ∀ piece ∈ pieces, piece ≠ []) :
    pieces.length ≤ pieces.flatten.length := by
  induction pieces with
  | nil => exact Nat.zero_le _
  | cons piece pieces ih =>
      obtain ⟨hpiece, hpieces⟩ := List.forall_mem_cons.1 h
      have hpos := List.length_pos_iff.2 hpiece
      have hle := ih hpieces
      rw [List.flatten_cons, List.length_append, List.length_cons]
      omega

/-- After every run the reader holds the bytes that follow those it has handed out. -/
theorem reads_holds (hstore : store.Serves object) (hchunk : 0 < chunk) {rooms : List Nat}
    (hrooms : ∀ room ∈ rooms, 0 < room) {s : Session} (h : Holds object delivered s.reader) :
    ∃ out, Holds object (delivered ++ out) (reads store chunk url s rooms).2.reader := by
  induction rooms generalizing s delivered with
  | nil => exact ⟨[], by rwa [List.append_nil]⟩
  | cons room rooms ih =>
      obtain ⟨hroom, hrooms⟩ := List.forall_mem_cons.1 hrooms
      obtain ⟨out, s', hread, hholds, -⟩ := @read_spec store chunk url _ _ hstore hchunk s h
        room hroom
      obtain ⟨outs, hholds⟩ := ih hrooms hholds
      refine ⟨out ++ outs, ?_⟩
      rw [← List.append_assoc, reads, hread]
      exact hholds

/-- The position stays within the object, so that the chunk size can be added to it. -/
theorem reads_sum_lt (hstore : store.Serves object) (hchunk : 0 < chunk) {rooms : List Nat}
    (hrooms : ∀ room ∈ rooms, 0 < room) (hfits : object.length + chunk < 0x10000000000000000) :
    (reads store chunk url rangeReader rooms).2.reader.pos + chunk < 0x10000000000000000 := by
  obtain ⟨out, hholds⟩ := @reads_holds store chunk url _ _ hstore hchunk rooms hrooms rangeReader
    (rangeReader_holds object)
  have hpos := hholds.pos_le
  omega

/-- No read of a served object fails.  The reads hand out pieces of it that are not empty,
in order, and after them nothing; as soon as one hands out nothing the pieces are the whole
object, and more reads than the object has bytes get there.  Once the end is known no
further read issues a request.  The sum of position and chunk size, which the source takes
in 64 bits, never overflows if object and chunk together fit them. -/
theorem reads_deliver_object (hstore : store.Serves object) (hchunk : 0 < chunk)
    {rooms : List Nat} (hrooms : ∀ room ∈ rooms, 0 < room) :
    ∃ pieces n,
      (reads store chunk url rangeReader rooms).1 = (pieces ++ List.replicate n []).map .ok ∧
      (∀ piece ∈ pieces, piece ≠ []) ∧ pieces.flatten <+: object ∧
      (0 < n → pieces.flatten = object ∧
        (reads store chunk url rangeReader rooms).2.reader.atEnd = true) ∧
      (object.length < rooms.length → 0 < n) ∧
      ((reads store chunk url rangeReader rooms).2.reader.atEnd = true → ∀ more,
        (reads store chunk url (reads store chunk url rangeReader rooms).2 more).2.requests =
          (reads store chunk url rangeReader rooms).2.requests) ∧
      (object.length + chunk < 0x10000000000000000 →
        (reads store chunk url rangeReader rooms).2.reader.pos + chunk < 0x10000000000000000) := by
  obtain ⟨pieces, n, houts, hne, hfront, hall⟩ := @reads_spec store chunk url _ _ hstore hchunk
    rooms hrooms rangeReader (rangeReader_holds object)
  rw [List.nil_append] at hfront hall
  refine ⟨pieces, n, houts, hne, hfront, hall, fun hlong => ?_,
    fun hend more => (reads_atEnd hend more).1, reads_sum_lt hstore hchunk hrooms⟩
  have hcount := congrArg List.length houts
  rw [reads_length, List.length_map, List.length_append, List.length_replicate] at hcount
  have hpieces := (length_le_flatten hne).trans hfront.length_le
  omega

/-- A store that answers with two bytes at most. -/
def shortStore (object : Bytes) : ObjectStore where
  get _ start stop :=
    if start < object.length then
      .ok ((object.drop start).take (min 2 (stop - start)), object.length)
    else .error "range not satisfiable"
  head _ := .ok object.length

theorem shortStore_serves (object : Bytes) : (shortStore object).Serves object where
  get_inside log start stop hstop hstart := by
    refine ⟨_, if_pos hstart, ?_, List.take_prefix_take_left (Nat.min_le_right _ _)⟩
    apply List.ne_nil_of_length_pos
    rw [List.length_take, List.length_drop]
    omega
  get_empty hempty log start stop := ⟨_, if_neg (by simp [hempty])⟩
  head_empty hempty log := by rw [hempty]; rfl

/-- Five bytes, in chunks of three, read into buffers of different sizes. -/
theorem reads_deliver_object_short :
    ∃ pieces n, (reads (shortStore [1, 2, 3, 4, 5]) 3 "" rangeReader [1, 4, 1, 7, 2, 9]).1 =
        (pieces ++ List.replicate n []).map .ok ∧
      0 < n ∧ pieces.flatten = [1, 2, 3, 4, 5] := by
  obtain ⟨pieces, n, houts, -, -, hall, hlong, -⟩ := @reads_deliver_object _ 3 "" _
    (shortStore_serves [1, 2, 3, 4, 5]) (by decide) [1, 4, 1, 7, 2, 9] (by decide)
  have hn := hlong (by decide)
  exact ⟨pieces, n, houts, hn, (hall hn).1⟩

end VgiCbor.Cloud
