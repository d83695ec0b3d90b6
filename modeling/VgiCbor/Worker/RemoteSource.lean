import VgiCbor.Lib.BufferedSource
import VgiCbor.Worker.CopyFrom
import VgiCbor.Worker.CopyTo
import VgiCbor.Worker.RangeReader

/-!
# Row files in an object store

A remote source of a COPY FROM is read through a `RangeReader`, a buffer and an item
reader.  Requests can fail at any time.  What comes out is what the row file holds, or a
part of its front and then an error (`remote_source_streams`): a request that fails never
passes for the end of the file, so a COPY that ends cleanly has loaded every row
(`remote_copy_complete`).
-/

namespace VgiCbor.Cloud

open ItemStream Binary64 Copy

/-! ## A store whose requests can fail -/

/-- The store serves the object where it does not fail: an answer to a request inside the
object has some of the bytes asked for, from the first on, and the true size; a range of an
empty object cannot be satisfied. -/
structure ObjectStore.ServesOrFails (store : ObjectStore) (object : Bytes) : Prop where
  get_inside : ∀ log start stop, start < stop → start < object.length →
    (∃ e, store.get log start stop = .error e) ∨
      ∃ bytes, store.get log start stop = .ok (bytes, object.length) ∧ bytes ≠ [] ∧
        bytes <+: (object.drop start).take (stop - start)
  get_empty : object = [] → ∀ log start stop, ∃ e, store.get log start stop = .error e
  head_size : ∀ log size, store.head log = .ok size → size = object.length

variable {store : ObjectStore} {chunk : Nat} {url : String} {object delivered : Bytes}

/-- A fetch fails, or hands out the next bytes; in front of the end it hands out something.  A
failed one leaves the position where it was. -/
theorem fetch_outcome (hstore : store.ServesOrFails object) (hchunk : 0 < chunk) {s : Session}
    (h : Holds object delivered s.reader) (hrest : s.reader.buf.length ≤ s.reader.off)
    (hend : s.reader.atEnd = false) (room : Nat) :
    (∃ e s', fetch store chunk url s room = (.error e, s') ∧ Holds object delivered s'.reader) ∨
    ∃ out s', fetch store chunk url s room = (.ok out, s') ∧
      Holds object (delivered ++ out) s'.reader ∧ (0 < room → out = [] → delivered = object) := by
  cases hget : store.get s.requests s.reader.pos (s.reader.stop chunk) with
  | ok answer =>
      obtain ⟨bytes, size⟩ := answer
      right
      have hne : object ≠ [] := by
        intro hempty
        obtain ⟨e, he⟩ := hstore.get_empty hempty s.requests s.reader.pos (s.reader.stop chunk)
        rw [hget] at he
        cases he
      have hpos := h.pos_lt hend hne
      rcases hstore.get_inside s.requests _ _ (h.lt_stop hchunk hpos) hpos with
        ⟨e, he⟩ | ⟨bytes', hanswer, hbytes, hfront⟩
      · rw [hget] at he
        cases he
      · rw [hget] at hanswer
        cases hanswer
        have hholds := holds_fetched h hrest hfront
        refine ⟨_, ⟨_, .get s.reader.pos (s.reader.stop chunk) :: s.requests⟩, ?_,
          hholds.handOut room, fun hroom hnil => ?_⟩
        · rw [fetch]
          simp only [hget, List.isEmpty_eq_false_iff.2 hbytes, Bool.false_eq_true, if_false]
        · exact absurd hnil (handOut_ne_nil (List.length_pos_iff.2 hbytes) hroom)
  | error e =>
      rw [fetch]
      simp only [hget]
      cases hsize : s.reader.size with
      | some size =>
          simp only [Option.isNone_some, Bool.false_eq_true, if_false]
          exact .inl ⟨_, _, rfl, h⟩
      | none =>
          simp only [Option.isNone_none, if_true]
          cases hhead : store.head (.get s.reader.pos (s.reader.stop chunk) :: s.requests) with
          | error e' => exact .inl ⟨_, _, rfl, h⟩
          | ok size =>
              simp only
              by_cases hzero : size = 0
              · -- The object is empty, so there is nothing to hand out.
                rw [if_pos hzero]
                have hlength := hstore.head_size _ _ hhead
                have hempty : object = [] := List.length_eq_zero_iff.1 (by omega)
                have hdelivered : delivered = object := by
                  rw [hempty]
                  exact List.prefix_nil.1 (hempty ▸ h.prefix)
                refine .inr ⟨[], _, rfl, ?_, fun _ _ => hdelivered⟩
                rw [List.append_nil]
                refine ⟨h.fetched, h.pos_le, ?_, by simp⟩
                rintro size' ⟨⟩
                omega
              · rw [if_neg hzero]
                exact .inl ⟨_, _, rfl, h⟩

/-- A read fails, or hands out the next bytes; in front of the end it hands out something. -/
theorem read_outcome (hstore : store.ServesOrFails object) (hchunk : 0 < chunk) {s : Session}
    (h : Holds object delivered s.reader) (room : Nat) :
    (∃ e s', read store chunk url s room = (.error e, s') ∧ Holds object delivered s'.reader) ∨
    ∃ out s', read store chunk url s room = (.ok out, s') ∧
      Holds object (delivered ++ out) s'.reader ∧ (0 < room → out = [] → delivered = object) := by
  unfold read
  by_cases hrest : s.reader.buf.length ≤ s.reader.off
  · rw [if_pos hrest]
    cases hend : s.reader.atEnd with
    | true =>
        rw [if_pos rfl]
        refine .inr ⟨[], s, rfl, by rwa [List.append_nil], fun _ _ => ?_⟩
        obtain ⟨size, hsize, hle⟩ := atEnd_eq_true_iff.1 hend
        have heq := h.size_eq size hsize
        have hfetched := h.fetched
        rwa [List.drop_eq_nil_of_le hrest, List.append_nil,
          List.take_of_length_le (by omega)] at hfetched
    | false =>
        rw [if_neg Bool.false_ne_true]
        exact fetch_outcome hstore hchunk h hrest hend room
  · rw [if_neg hrest]
    exact .inr ⟨_, _, rfl, h.handOut room,
      fun hroom hnil => absurd hnil (handOut_ne_nil (not_le.1 hrest) hroom)⟩

/-- A failed read is a range request that failed, and its error tells which. -/
theorem read_error {s : Session} {room : Nat} {e : String}
    (h : (read store chunk url s room).1 = .error e) :
    ∃ start stop cause, store.get s.requests start stop = .error cause ∧
      e = s!"read {url} bytes {start}..{stop}: {cause}" := by
  unfold read at h
  split_ifs at h
  unfold fetch at h
  cases hget : store.get s.requests s.reader.pos (s.reader.stop chunk) with
  | ok answer =>
      simp only [hget] at h
      split_ifs at h
  | error cause =>
      refine ⟨_, _, cause, hget, ?_⟩
      simp only [hget] at h
      split_ifs at h
      · cases hhead : store.head (.get s.reader.pos (s.reader.stop chunk) :: s.requests) with
        | error e' =>
            rw [hhead] at h
            exact (Except.error.inj h).symm
        | ok size =>
            rw [hhead] at h
            simp only at h
            split_ifs at h
            exact (Except.error.inj h).symm
      · exact (Except.error.inj h).symm

/-! ## The object as a source of bytes -/

/-- A session that has handed out a front part of the object.  No other state is reached by
reading. -/
def Remote (object : Bytes) : Type := { s : Session // ∃ delivered, Holds object delivered s.reader }

/-- What such a session has still to hand out: the rest of its chunk, and the object behind
it. -/
def Remote.rest (s : Remote object) : Bytes :=
  s.1.reader.buf.drop s.1.reader.off ++ object.drop s.1.reader.pos

theorem Holds.rest {s : Session} (h : Holds object delivered s.reader) :
    delivered ++ (s.reader.buf.drop s.reader.off ++ object.drop s.reader.pos) = object := by
  rw [← List.append_assoc, h.fetched, List.take_append_drop]

/-- `range_reader`: nothing is requested yet. -/
def Remote.opened (object : Bytes) : Remote object := ⟨rangeReader, [], rangeReader_holds object⟩

@[simp] theorem Remote.rest_opened (object : Bytes) : (Remote.opened object).rest = object := rfl

/-- The range reader as a source of bytes.  Whatever its reads return, they keep the invariant
of the session. -/
def remoteSource (store : ObjectStore) (chunk : Nat) (url : String)
    (hstore : store.ServesOrFails object) (hchunk : 0 < chunk) : ByteSource (Remote object) where
  read s room :=
    ((read store chunk url s.1 room).1, ⟨(read store chunk url s.1 room).2, by
      obtain ⟨s, delivered, h⟩ := s
      rcases @read_outcome store chunk url _ _ hstore hchunk s h room with
        ⟨e, s', hread, hholds⟩ | ⟨out, s', hread, hholds, -⟩
      · exact ⟨delivered, hread ▸ hholds⟩
      · exact ⟨delivered ++ out, hread ▸ hholds⟩⟩)
  remaining := Remote.rest
  read_spec s room hroom := by
    obtain ⟨s, delivered, h⟩ := s
    rcases @read_outcome store chunk url _ _ hstore hchunk s h room with
      ⟨e, s', hread, hholds⟩ | ⟨out, s', hread, hholds, hnothing⟩
    · exact .inl ⟨e, ⟨s', delivered, hholds⟩, by simp only [hread]⟩
    · refine .inr ⟨out, ⟨s', delivered ++ out, hholds⟩, by simp only [hread], ?_, fun hnil => ?_⟩
      · have hbefore := h.rest
        have hafter := hholds.rest
        rw [List.append_assoc] at hafter
        exact List.append_cancel_left (hbefore.trans hafter.symm)
      · have hwhole := hnothing hroom hnil
        have hbefore := h.rest
        rw [hwhole] at hbefore
        exact List.append_right_eq_self.1 hbefore

end VgiCbor.Cloud

namespace VgiCbor.Copy

open ItemStream Binary64 Cloud

/-! ## Item readers over a source that can fail -/

section NextItem

variable {σ : Type} (fp : FloatOps) (codecs : Codecs) (r : FailingBufRead σ)

/-- The text in which the item reader of this format reports a failed read. -/
def Wire.ReportsRead : Wire → String → String → Prop
  | .cbor => (codecs.cbor.decoder MAX_NESTING).ReportsRead fun e => (classify e).text
  | .msgpack => codecs.msgpack.decoder.ReportsRead id

/-- What comes out of an item reader: what the bytes hold, or a part of its front and then
the report of a failed read at the item that was being read. -/
def Delivered (reports : String → Prop) (file : Parsed Value) (items : List Value)
    (error : Option String) : Prop :=
  (items = file.items ∧ error = file.error) ∨
    (items <+: file.items ∧ ∃ text, error = some (itemError items.length text) ∧ reports text)

theorem delivered_of_delivers {α ε : Type} {r : FailingBufRead σ} {d : ItemDecoder α ε}
    {errText : ε → String} (convert : α → Value) {parsed : Parsed α} {items : List α}
    {error : Option String} (h : r.Delivers d errText parsed 0 items error) :
    Delivered (fun text => ∃ e, r.Fails e ∧ d.ReportsRead errText e text)
      ⟨parsed.items.map convert, parsed.error⟩ (items.map convert) error := by
  rcases h with ⟨rfl, herror⟩ | ⟨hfront, text, herror, hreports⟩
  · exact .inl ⟨rfl, herror⟩
  · refine .inr ⟨List.IsPrefix.map convert hfront, text, ?_, hreports⟩
    rw [herror, List.length_map, Nat.zero_add]

/-- Draining an item reader delivers what is in the bytes, or a part of it and the report of
a failed read. -/
theorem Wire.drains_items (wire : Wire) (s : σ) :
    ∃ vs e stopped, Drains (wire.nextItem fp codecs r) (ItemReader.new s) vs e stopped ∧
      wire.nextItem fp codecs r stopped = (none, stopped) ∧
      Delivered (fun text => ∃ e, r.Fails e ∧ wire.ReportsRead codecs e text)
        (wire.items fp codecs (r.remaining s)) vs e := by
  cases wire with
  | cbor =>
      obtain ⟨vs, e, stopped, hdrains, hdelivers, hstop⟩ := drains_failing
        (codecs.cbor.decoder MAX_NESTING) r (fun e => (classify e).text) id
        "sequence reader made no progress" s
      have hdelivered := delivered_of_delivers id hdelivers
      rw [List.map_id] at hdrains hdelivered
      rw [List.map_id] at hdelivered
      exact ⟨vs, e, stopped, hdrains, hstop, hdelivered⟩
  | msgpack =>
      obtain ⟨vs, e, stopped, hdrains, hdelivers, hstop⟩ := drains_failing
        codecs.msgpack.decoder r id (Msgpack.mpToCbor fp) "stream reader made no progress" s
      exact ⟨_, e, stopped, hdrains, hstop, delivered_of_delivers _ hdelivers⟩

end NextItem

/-! ## One remote row file -/

/-- A row file in an object store.  The store answers its requests from the object, or fails. -/
structure RemoteFile where
  url : String
  object : Bytes
  store : ObjectStore
  serves : store.ServesOrFails object

def REMOTE_CHUNK : Nat := 8 * 1024 * 1024

def DEFAULT_BUF_SIZE : Nat := 8 * 1024

/-- How a remote row file is read: in chunks, through a buffer of this capacity. -/
structure Buffering where
  chunk : Nat
  capacity : Nat
  chunk_pos : 0 < chunk
  capacity_pos : 0 < capacity

/-- The sizes of the worker. -/
def Buffering.worker : Buffering where
  chunk := REMOTE_CHUNK
  capacity := DEFAULT_BUF_SIZE
  chunk_pos := by decide
  capacity_pos := by decide

/-- `open_reader` behind a `BufReader`. -/
def RemoteFile.reader (file : RemoteFile) (sizes : Buffering) :
    FailingBufRead (BufReader (Remote file.object)) :=
  BufReader.reader (remoteSource file.store sizes.chunk file.url file.serves sizes.chunk_pos)
    sizes.capacity sizes.capacity_pos

/-- The reader before its first request. -/
def RemoteFile.opened (file : RemoteFile) : ItemReader (BufReader (Remote file.object)) :=
  ItemReader.new (BufReader.new (Remote.opened file.object))

/-- If no request fails, no read does.  So a file in a store that always answers is read as if
it were local. -/
theorem RemoteFile.never_fails {file : RemoteFile} (hserves : file.store.Serves file.object)
    (sizes : Buffering) (s : BufReader (Remote file.object)) (e : String)
    (s' : BufReader (Remote file.object)) :
    (file.reader sizes).fillBuf s ≠ (.error e, s') := by
  intro hfill
  obtain ⟨inner, inner', hread⟩ := BufReader.reader_fails _ _ ⟨s, s', hfill⟩
  obtain ⟨s, delivered, hholds⟩ := inner
  obtain ⟨out, s₁, hok, -⟩ := @read_spec file.store sizes.chunk file.url _ _ hserves
    sizes.chunk_pos s hholds sizes.capacity sizes.capacity_pos
  simp only [remoteSource, hok] at hread
  cases hread

/-- The text in which a failed range request of the file is reported.  It names the URL, the
range and the cause. -/
def RemoteFile.FailedRead (file : RemoteFile) (e : String) : Prop :=
  ∃ log start stop cause, file.store.get log start stop = .error cause ∧
    e = s!"read {file.url} bytes {start}..{stop}: {cause}"

/-- The reader fails where a range request does. -/
theorem RemoteFile.failedRead {file : RemoteFile} {sizes : Buffering} {e : String}
    (h : (file.reader sizes).Fails e) : file.FailedRead e := by
  obtain ⟨inner, inner', hread⟩ := BufReader.reader_fails _ _ h
  obtain ⟨start, stop, cause, hget, htext⟩ := read_error (Prod.ext_iff.1 hread).1
  exact ⟨_, start, stop, cause, hget, htext⟩

variable (fp : FloatOps) (codecs : Codecs)

/-- Reading a remote row file to its end delivers the items that the file holds and its
error, or some of the first items and then an error that names the item at which a range
request failed, and the request; afterwards nothing more comes.  If no request fails it is
the former. -/
theorem remote_source_streams (wire : Wire) (file : RemoteFile) (sizes : Buffering) :
    ∃ vs e stopped,
      Drains (wire.nextItem fp codecs (file.reader sizes)) file.opened vs e stopped ∧
      wire.nextItem fp codecs (file.reader sizes) stopped = (none, stopped) ∧
      Delivered (fun text => ∃ e, file.FailedRead e ∧ wire.ReportsRead codecs e text)
        (wire.items fp codecs file.object) vs e ∧
      (file.store.Serves file.object → vs = (wire.items fp codecs file.object).items ∧
        e = (wire.items fp codecs file.object).error) := by
  obtain ⟨vs, e, stopped, hdrains, hstop, hdelivered⟩ := Wire.drains_items fp codecs
    (file.reader sizes) wire (BufReader.new (Remote.opened file.object))
  refine ⟨vs, e, stopped, hdrains, hstop, ?_, fun hserves => ?_⟩
  · refine hdelivered.imp_right fun ⟨hfront, text, herror, e', hfails, hreports⟩ => ?_
    exact ⟨hfront, text, herror, e', RemoteFile.failedRead hfails, hreports⟩
  · rcases hdelivered with hexact | ⟨-, -, -, e', ⟨s, s', hfill⟩, -⟩
    · exact hexact
    · exact absurd hfill (RemoteFile.never_fails hserves sizes s e' s')

/-! ## A COPY FROM over remote row files -/

/-- The source that a remote row file is to the row producer: the items its reader delivers,
and the error it ends in.  Which source that is depends on the requests that fail. -/
def ReadsAs (wire : Wire) (sizes : Buffering) (file : RemoteFile) (stream : Parsed Value) : Prop :=
  ∃ stopped, Drains (wire.nextItem fp codecs (file.reader sizes)) file.opened stream.items
    stream.error stopped

def RemoteFile.items (wire : Wire) (file : RemoteFile) : List Value :=
  (wire.items fp codecs file.object).items

variable {fp codecs} {wire : Wire} {sizes : Buffering}

/-- A source that ends cleanly has delivered a whole file that ends cleanly; any other has
delivered a front part of its items. -/
theorem ReadsAs.complete {file : RemoteFile} {stream : Parsed Value}
    (h : ReadsAs fp codecs wire sizes file stream) :
    stream.items <+: file.items fp codecs wire ∧
      (stream.error = none → stream.items = file.items fp codecs wire ∧
        (wire.items fp codecs file.object).error = none) := by
  obtain ⟨stopped, hreads⟩ := h
  obtain ⟨vs, e, stopped', hdrains, -, hdelivered, -⟩ :=
    remote_source_streams fp codecs wire file sizes
  obtain ⟨hitems, herror, -⟩ := hreads.unique hdrains
  rw [hitems, herror]
  rcases hdelivered with ⟨rfl, rfl⟩ | ⟨hfront, text, rfl, -⟩
  · exact ⟨List.prefix_refl _, fun hclean => ⟨rfl, hclean⟩⟩
  · exact ⟨hfront, fun hclean => by cases hclean⟩

/-- What precedes the first failure is a front part of all items, in the order of the files. -/
theorem beforeFailure_isPrefix {files : List RemoteFile} {streams : List (Parsed Value)}
    (h : List.Forall₂ (ReadsAs fp codecs wire sizes) files streams) :
    beforeFailure (streams.map .opened) <+: files.flatMap (RemoteFile.items fp codecs wire) := by
  induction h with
  | nil => exact List.nil_prefix
  | @cons file stream files streams hfile _ ih =>
      obtain ⟨hfront, hclean⟩ := hfile.complete
      obtain ⟨items, error⟩ := stream
      rw [List.map_cons, List.flatMap_cons]
      cases error with
      | some e =>
          rw [beforeFailure]
          exact hfront.trans (List.prefix_append _ _)
      | none =>
          rw [beforeFailure, ← (hclean rfl).1, List.prefix_append_right_inj]
          exact ih

/-- Sources that are all clean have delivered all items. -/
theorem sourceItems_of_allClean {files : List RemoteFile} {streams : List (Parsed Value)}
    (h : List.Forall₂ (ReadsAs fp codecs wire sizes) files streams)
    (hall : AllClean (streams.map .opened)) :
    sourceItems (streams.map .opened) = files.flatMap (RemoteFile.items fp codecs wire) ∧
      ∀ file ∈ files, (wire.items fp codecs file.object).error = none := by
  induction h with
  | nil => exact ⟨rfl, by simp⟩
  | @cons file stream files streams hfile _ ih =>
      obtain ⟨items, hitems⟩ := hall (.opened stream) (by simp)
      cases hitems
      obtain ⟨hwhole, hclean⟩ := hfile.complete.2 rfl
      obtain ⟨hrest, hcleanRest⟩ := ih fun s hs => hall s (List.mem_cons_of_mem _ hs)
      constructor
      · rw [List.map_cons, sourceItems, hrest, List.flatMap_cons, ← hwhole]
      · exact List.forall_mem_cons.2 ⟨hclean, hcleanRest⟩

/-- A strict COPY FROM over remote row files, whatever requests fail: its batches are built
from a front part of the rows of the files in order, and a run that ends without an error
has read every file to its clean end and loaded every row of it. -/
theorem remote_copy_complete (codecs : Codecs) (rt : Runtime) (call : ReadCall)
    (sizes : Buffering) (files : List RemoteFile) (hstrict : call.ignoreErrors = false)
    (hlimit : 1 ≤ call.batchRows) :
    ∃ streams, List.Forall₂ (ReadsAs rt.fp codecs call.wire sizes) files streams ∧
      ∃ (chunks : List (List Value)) (batches : List RecordBatch) (failure : Option Fault)
        (stopped : RowProducer),
        Drains (RowProducer.pull call rt) (.start (streams.map .opened)) batches failure stopped ∧
        chunks.mapM (buildBatch rt call.schema call.shape) = .ok batches ∧
        chunks.flatten <+: files.flatMap (RemoteFile.items rt.fp codecs call.wire) ∧
        (failure = none → (∀ stream ∈ streams, stream.error = none) ∧
          chunks.flatten = files.flatMap (RemoteFile.items rt.fp codecs call.wire) ∧
          ∀ file ∈ files, (call.wire.items rt.fp codecs file.object).error = none) := by
  have hstreams : ∃ streams, List.Forall₂ (ReadsAs rt.fp codecs call.wire sizes) files streams := by
    induction files with
    | nil => exact ⟨[], .nil⟩
    | cons file files ih =>
        obtain ⟨streams, hrest⟩ := ih
        obtain ⟨vs, e, stopped, hdrains, -⟩ :=
          remote_source_streams rt.fp codecs call.wire file sizes
        exact ⟨⟨vs, e⟩ :: streams, .cons ⟨stopped, hdrains⟩ hrest⟩
  obtain ⟨streams, hreads⟩ := hstreams
  obtain ⟨chunks, batches, failure, stopped, hrun, hbuilt, -, hfront, hclean, -⟩ :=
    strict_copy_from rt call (streams.map .opened) hstrict hlimit
  refine ⟨streams, hreads, chunks, batches, failure, stopped, hrun, hbuilt, ?_, fun hnone => ?_⟩
  · exact (hfront.trans (List.takeWhile_prefix _)).trans (beforeFailure_isPrefix hreads)
  · obtain ⟨hall, -, hitems⟩ := hclean hnone
    obtain ⟨hwhole, hcleanFiles⟩ := sourceItems_of_allClean hreads hall
    refine ⟨fun stream hstream => ?_, hitems.trans hwhole, hcleanFiles⟩
    obtain ⟨items, hopened⟩ := hall (.opened stream) (List.mem_map_of_mem hstream)
    cases hopened
    rfl

/-! ## A run that fails -/

/-- A store that serves an object without fail is one that may fail. -/
theorem shortStore_servesOrFails (object : Bytes) :
    (shortStore object).ServesOrFails object where
  get_inside log start stop hstop hstart :=
    .inr ((shortStore_serves object).get_inside log start stop hstop hstart)
  get_empty := (shortStore_serves object).get_empty
  head_size _ _ h := (Except.ok.inj h).symm

def resetStore : ObjectStore where
  get _ _ _ := .error "connection reset"
  head _ := .error "connection reset"

theorem resetStore_servesOrFails (object : Bytes) : resetStore.ServesOrFails object where
  get_inside _ _ _ _ _ := .inl ⟨_, rfl⟩
  get_empty _ _ _ _ := ⟨_, rfl⟩
  head_size _ _ h := by cases h

/-- Two row files of one empty map each; the second is behind a store that fails. -/
def flakyFiles : List RemoteFile :=
  [⟨"s3://rows/0", [0xa0], shortStore [0xa0], shortStore_servesOrFails _⟩,
    ⟨"s3://rows/1", [0xa0], resetStore, resetStore_servesOrFails _⟩]

/-- What the item reader reports of the second file. -/
def flakyError : String :=
  itemError 0 "read s3://rows/1 bytes 0..8388608: connection reset"

/-- What the two files deliver: all of the first, and the failed request. -/
theorem flakyFiles_streams {streams : List (Parsed Value)}
    (h : List.Forall₂ (ReadsAs Runtime.bare.fp concreteCodecs .cbor Buffering.worker) flakyFiles
      streams) :
    streams = [⟨[.map []], none⟩, ⟨[], some flakyError⟩] := by
  cases h with
  | @cons _ first _ _ hfirst hrest =>
  cases hrest with
  | @cons _ second _ _ hsecond hnil =>
  cases hnil
  have hparsed : Wire.cbor.items Runtime.bare.fp concreteCodecs [0xa0] =
      ⟨[.map []], none⟩ := by
    have hrun : (concreteCodecs.cbor.decoder MAX_NESTING).run [0xa0] = .ok (.map [], []) := rfl
    rw [Wire.items, Seq.parseSeq, parseLoop_ok hrun, parseLoop_nil]
    rfl
  congr
  · obtain ⟨stopped, hreads⟩ := hfirst
    obtain ⟨vs, e, stopped', hdrains, -, -, hexact⟩ := remote_source_streams Runtime.bare.fp
      concreteCodecs .cbor ⟨"s3://rows/0", [0xa0], shortStore [0xa0], shortStore_servesOrFails _⟩
      Buffering.worker
    obtain ⟨hitems, herror, -⟩ := hreads.unique hdrains
    obtain ⟨rfl, rfl⟩ := hexact (shortStore_serves _)
    obtain ⟨items, error⟩ := first
    rw [Parsed.mk.injEq]
    simp only [hparsed] at hitems herror
    exact ⟨hitems, herror⟩
  · obtain ⟨stopped, hreads⟩ := hsecond
    obtain ⟨hitems, herror, -⟩ := hreads.unique (.failed rfl)
    obtain ⟨items, error⟩ := second
    rw [Parsed.mk.injEq]
    exact ⟨hitems, herror⟩

/-- The row of the first file is a batch of its own, and behind it the run fails. -/
theorem flakyStreams_run {batch : RecordBatch}
    (hbatch : buildBatch .bare tagsTarget.schema .map [.map []] = .ok batch) :
    ∃ stopped, Drains (RowProducer.pull ⟨tagsTarget.schema, .cbor, .map, false, 1⟩ .bare)
      (.start [.opened ⟨[.map []], none⟩, .opened ⟨[], some flakyError⟩]) [batch]
      (some (decodeFailed .cbor flakyError)) stopped := by
  generalize hcall : (⟨tagsTarget.schema, .cbor, .map, false, 1⟩ : ReadCall) = call
  generalize hstart : RowProducer.start [.opened ⟨[.map []], none⟩,
    .opened ⟨[], some flakyError⟩] = p
  have hevents : p.events call = [.ok (.map []), .error (decodeFailed .cbor flakyError)] := by
    subst hcall hstart
    rfl
  obtain ⟨hfirst, hrest⟩ := p.pull_spec call .bare
  rw [hevents] at hfirst hrest
  obtain ⟨hsecond, -⟩ := (p.pull call .bare).2.pull_spec call .bare
  rw [hrest] at hsecond
  subst hcall
  refine ⟨_, .item (Prod.ext (hfirst.trans ?_) rfl) (.failed (Prod.ext (hsecond.trans ?_) rfl))⟩
  · change some (convertRows .bare tagsTarget.schema .map false [.map []]) = _
    rw [convertRows, hbatch]
  · rfl

/-- The run over the two files loads the row of the first one and fails. -/
theorem remote_copy_complete_flaky :
    ∃ streams, List.Forall₂ (ReadsAs Runtime.bare.fp concreteCodecs .cbor Buffering.worker)
        flakyFiles streams ∧
      ∃ (batch : RecordBatch) (stopped : RowProducer),
        buildBatch .bare tagsTarget.schema .map [.map []] = .ok batch ∧
        Drains (RowProducer.pull ⟨tagsTarget.schema, .cbor, .map, false, 1⟩ .bare)
          (.start (streams.map .opened)) [batch] (some (decodeFailed .cbor flakyError)) stopped := by
  obtain ⟨streams, hreads, chunks, batches, failure, stopped, hrun, -⟩ :=
    remote_copy_complete concreteCodecs .bare ⟨tagsTarget.schema, .cbor, .map, false, 1⟩
      Buffering.worker flakyFiles rfl (by decide)
  refine ⟨streams, hreads, ?_⟩
  obtain rfl := flakyFiles_streams hreads
  obtain ⟨stopped', hfails⟩ := flakyStreams_run rfl
  obtain ⟨rfl, rfl, rfl⟩ := hrun.unique hfails
  exact ⟨_, stopped, rfl, hrun⟩

end VgiCbor.Copy
