import VgiCbor.Worker.Cloud
import VgiCbor.Worker.CopyTo

/-!
# What COPY TO leaves behind

`close` writes the buffered batches of a COPY TO to their destination.  A remote object
is buffered and put at the end, so a failure leaves it alone.  A local file is created
before the first row is encoded, and the rows are streamed into it: a failure leaves the
rows before it in place of what was there (`copy_to_destination`).
-/

namespace VgiCbor.CopyDestination

open Copy Cloud Traverse

/-! ## Options -/

/-- Parse the `row_format` option; `debug` quotes a string in a message.  Case and blanks
around it do not count. -/
def parseRowShape (debug : String → String) (format : String) (raw : Option String) :
    Except Fault RowShape :=
  let other := ((raw.map trim).getD "map").toLower
  if other = "map" then .ok .map
  else if other = "array" then .ok .array
  else
    .error (.valueError
      s!"{format}: 'row_format' must be one of ['map', 'array'], got {debug other}")

/-- Parse the name of a canonical order. -/
def parseCanon (s : String) : Except String Canon :=
  let other := (trim s).toLower
  if other = "core" then .ok .core
  else if other = "ctap2" then .ok .ctap2
  else .error s!"unknown canonical mode '{other}' (expected core | ctap2)"

/-- Parse the `canonical` option: unset or empty keeps the column order. -/
def parseCanonical (raw : Option String) : Except Fault (Option Canon) :=
  let mode := (raw.map trim).getD ""
  if mode = "" then .ok none
  else
    match parseCanon mode with
    | .ok canon => .ok (some canon)
    | .error e => .error (.valueError s!"cbor: 'canonical' {e}")

/-- The options of a COPY TO as they are given, before they are checked. -/
structure RawOptions where
  rowFormat : Option String
  canonical : Option String

/-- Resolve and validate the options.  The `canonical` option of a MessagePack copy is not
looked at. -/
def parseOptions (debug : String → String) (wire : Wire) (raw : RawOptions) :
    Except Fault Options :=
  (parseRowShape debug wire.format raw.rowFormat).bind fun shape =>
    match wire with
    | .cbor => (parseCanonical raw.canonical).map fun canonical => ⟨shape, canonical⟩
    | .msgpack => .ok ⟨shape, none⟩

/-! ## Sinks -/

/-- A writer of bytes.  It accepts them in order, or reports that it could not write them;
once it is dropped, a prefix of what it accepted stays behind, and all of it if it was
flushed. -/
structure Device where
  writeAll : Bytes → Bytes → Except String Unit
  flush : Bytes → Except String Unit
  settled : Bytes → Bytes
  settled_part : ∀ accepted, settled accepted <+: accepted
  settled_of_flush : ∀ accepted, flush accepted = .ok () → settled accepted = accepted

/-- The device takes everything: no write and no flush fails. -/
def Device.Reliable (d : Device) : Prop :=
  (∀ accepted bytes, d.writeAll accepted bytes = .ok ()) ∧ ∀ accepted, d.flush accepted = .ok ()

/-- A buffer in memory. -/
def Device.memory : Device where
  writeAll _ _ := .ok ()
  flush _ := .ok ()
  settled accepted := accepted
  settled_part accepted := List.prefix_refl accepted
  settled_of_flush _ _ := rfl

theorem Device.memory_reliable : Device.memory.Reliable := ⟨fun _ _ => rfl, fun _ => rfl⟩

/-- Where `close` streams the encoded rows: a local file, or a buffer for the remote one.
`accepted` are the bytes it was given so far. -/
structure Sink where
  device : Device
  accepted : Bytes

/-- `write_all`: also a failed write may have left some of its bytes. -/
def Sink.writeAll (s : Sink) (bytes : Bytes) : Sink × Except String Unit :=
  ({ s with accepted := s.accepted ++ bytes }, s.device.writeAll s.accepted bytes)

/-! ## Closing -/

/-- A buffered batch: its columns and its rows. -/
structure SourceBatch where
  schema : Schema
  rows : List (List Cell)

/-- What `close` reaches outside its own code. -/
structure Outside where
  rt : Runtime
  codecs : Codecs
  debug : String → String
  readBatch : Bytes → Except Fault SourceBatch
  parseUrl : String → Except String Url
  cloud : Environment
  construct : Url → List (String × String) → Except String (Bytes → Except String Unit)
  createError : String → Option String
  device : String → Device
  pathErrorText : String → String → String

/-- The files and remote objects there are. -/
structure World where
  files : String → Option Bytes
  objects : String → Option Bytes

/-- The content of a destination, if it exists. -/
def World.at (w : World) : Location → Option Bytes
  | .localPath path => w.files path
  | .remote url => w.objects url.text

/-- Replace the content of a destination. -/
def World.put (w : World) (destination : Location) (content : Bytes) : World :=
  match destination with
  | .localPath path => { w with files := Function.update w.files path (some content) }
  | .remote url => { w with objects := Function.update w.objects url.text (some content) }

@[simp] theorem World.at_put (w : World) (destination : Location) (content : Bytes) :
    (w.put destination content).at destination = some content := by
  cases destination <;> simp [World.put, World.at]

section Close

variable (o : Outside) (wire : Wire) (path : String) (opts : Options)

def writeErr (e : String) : Fault :=
  .runtimeError s!"{wire.format}: write to {path} failed: {e}"

def rowBytes (schema : Schema) (cells : List Cell) : Except Fault Bytes :=
  (rowItem o.rt schema opts.shape cells).bind (itemBytes o.rt o.codecs wire opts.canonical)

/-- Encode and write the rows of a batch, counting them. -/
def writeRows (schema : Schema) : List (List Cell) → Sink → Nat → Sink × Except Fault Nat
  | [], sink, count => (sink, .ok count)
  | cells :: rows, sink, count =>
      match rowBytes o wire opts schema cells with
      | .error e => (sink, .error e)
      | .ok bytes =>
          match sink.writeAll bytes with
          | (sink, .error e) => (sink, .error (writeErr wire path e))
          | (sink, .ok ()) => writeRows schema rows sink (count + 1)

/-- Write the rows of all batches in append order, up to the first that cannot be read or
written. -/
def writeShards : List Bytes → Sink → Nat → Sink × Except Fault Nat
  | [], sink, count => (sink, .ok count)
  | blob :: shards, sink, count =>
      match o.readBatch blob with
      | .error e => (sink, .error e)
      | .ok batch =>
          match writeRows o wire path opts batch.schema batch.rows sink count with
          | (sink, .error e) => (sink, .error e)
          | (sink, .ok count) => writeShards shards sink count

/-- Write all rows through a sink on the device, and flush it.  The bytes accepted so far are
returned with an error, too. -/
def writeAllRows (shards : List Bytes) (device : Device) : Bytes × Except Fault Nat :=
  match writeShards o wire path opts shards ⟨device, []⟩ 0 with
  | (sink, .error e) => (sink.accepted, .error e)
  | (sink, .ok count) =>
      match sink.device.flush sink.accepted with
      | .error e => (sink.accepted, .error (writeErr wire path e))
      | .ok () => (sink.accepted, .ok count)

end Close

/-- Close a COPY TO: the number of rows written, and the world it leaves behind.  A local file
is created before the first row is encoded, a remote object is put after the last. -/
def close (o : Outside) (wire : Wire) (raw : RawOptions) (shards : List Bytes) (path : String)
    (world : World) : Except Fault Nat × World :=
  match parseOptions o.debug wire raw with
  | .error e => (.error e, world)
  | .ok opts =>
      if isGlob path then
        (.error (.valueError (s!"{wire.format}: '{path}' looks like a glob, but COPY … TO " ++
          "writes a single file — give one destination path")), world)
      else
        match Cloud.classify o.parseUrl path with
        | .error e => (.error (.valueError e), world)
        | .ok (.remote url) =>
            match writeAllRows o wire path opts shards Device.memory with
            | (_, .error e) => (.error e, world)
            | (buffer, .ok count) =>
                match writeObject o.cloud o.construct url [] buffer with
                | .error e => (.error (.valueError e), world)
                | .ok () => (.ok count, world.put (.remote url) buffer)
        | .ok (.localPath path) =>
            match o.createError path with
            | some e => (.error (.runtimeError (o.pathErrorText path e)), world)
            | none =>
                -- The file is truncated here; the writer settles when it is dropped.
                let (accepted, result) := writeAllRows o wire path opts shards (o.device path)
                (result, world.put (.localPath path) ((o.device path).settled accepted))

/-! ## The rows of a COPY TO -/

/-- The values before the first failure.  They are all that is written if there is one. -/
def okPrefix {ε α : Type} : List (Except ε α) → List α
  | [] => []
  | .error _ :: _ => []
  | .ok a :: results => a :: okPrefix results

variable {o : Outside} {wire : Wire} {path : String} {opts : Options}

/-- The encodings of all rows in append order, with the failures.  A batch that cannot be read
is one failure. -/
def rowResults (o : Outside) (wire : Wire) (opts : Options) (shards : List Bytes) :
    List (Except Fault Bytes) :=
  shards.flatMap fun blob =>
    match o.readBatch blob with
    | .error e => [.error e]
    | .ok batch => batch.rows.map (rowBytes o wire opts batch.schema)

/-- Write results up to the first failure, their own or that of the device. -/
def writeResults (wire : Wire) (path : String) :
    List (Except Fault Bytes) → Sink → Nat → Sink × Except Fault Nat
  | [], sink, count => (sink, .ok count)
  | .error e :: _, sink, _ => (sink, .error e)
  | .ok bytes :: results, sink, count =>
      match sink.writeAll bytes with
      | (sink, .error e) => (sink, .error (writeErr wire path e))
      | (sink, .ok ()) => writeResults wire path results sink (count + 1)

theorem writeResults_append (front back : List (Except Fault Bytes)) (sink : Sink)
    (count : Nat) :
    writeResults wire path (front ++ back) sink count =
      match writeResults wire path front sink count with
      | (sink, .error e) => (sink, .error e)
      | (sink, .ok count) => writeResults wire path back sink count := by
  fun_induction writeResults wire path front sink count with
  | case1 sink count => rfl
  | case2 e results sink count => rfl
  | case3 sink count bytes results sink' e hwrite =>
      rw [List.cons_append, writeResults, hwrite]
  | case4 sink count bytes results sink' hwrite ih =>
      rw [List.cons_append, writeResults, hwrite]
      exact ih

theorem writeRows_eq (schema : Schema) (rows : List (List Cell)) (sink : Sink) (count : Nat) :
    writeRows o wire path opts schema rows sink count =
      writeResults wire path (rows.map (rowBytes o wire opts schema)) sink count := by
  induction rows generalizing sink count with
  | nil => rfl
  | cons cells rows ih =>
      rw [writeRows, List.map_cons]
      cases rowBytes o wire opts schema cells with
      | error e => rfl
      | ok bytes => simp only [writeResults, ih]

/-- The loops over batches and rows write the rows one after the other; where one batch ends
and the next begins does not matter. -/
theorem writeShards_eq (shards : List Bytes) (sink : Sink) (count : Nat) :
    writeShards o wire path opts shards sink count =
      writeResults wire path (rowResults o wire opts shards) sink count := by
  induction shards generalizing sink count with
  | nil => rfl
  | cons blob shards ih =>
      rw [writeShards, rowResults, List.flatMap_cons, writeResults_append]
      cases o.readBatch blob with
      | error e => rfl
      | ok batch =>
          simp only [writeRows_eq, ih]
          rfl

/-- What a sink has accepted from a list of results: a front part of those before the first
failure, and all of these if the device is reliable. -/
theorem writeResults_spec (results : List (Except Fault Bytes)) (sink : Sink) (count : Nat) :
    (writeResults wire path results sink count).1.device = sink.device ∧
      (∃ k, (writeResults wire path results sink count).1.accepted =
        sink.accepted ++ ((okPrefix results).take k).flatten) ∧
      (sink.device.Reliable → (writeResults wire path results sink count).1.accepted =
        sink.accepted ++ (okPrefix results).flatten) ∧
      ∀ n, (writeResults wire path results sink count).2 = .ok n →
        results = (okPrefix results).map .ok ∧ n = count + (okPrefix results).length ∧
          (writeResults wire path results sink count).1.accepted =
            sink.accepted ++ (okPrefix results).flatten := by
  induction results generalizing sink count with
  | nil => simp [writeResults, okPrefix]
  | cons result results ih =>
      cases result with
      | error e => simp [writeResults, okPrefix]
      | ok bytes =>
          simp only [writeResults, Sink.writeAll, okPrefix]
          cases hwrite : sink.device.writeAll sink.accepted bytes with
          | error e =>
              -- The failed write may have left its row behind; a reliable device does not fail.
              refine ⟨rfl, ⟨1, by simp⟩, fun hreliable => ?_, fun n hn => by cases hn⟩
              rw [hreliable.1] at hwrite
              cases hwrite
          | ok u =>
              obtain ⟨hdevice, ⟨k, hk⟩, hreliable, hok⟩ :=
                ih ⟨sink.device, sink.accepted ++ bytes⟩ (count + 1)
              refine ⟨hdevice, ⟨k + 1, ?_⟩, fun hdev => ?_, fun n hn => ?_⟩
              · rw [hk, List.take_succ_cons, List.flatten_cons, List.append_assoc]
              · rw [hreliable hdev, List.flatten_cons, List.append_assoc]
              · obtain ⟨hall, hcount, hwritten⟩ := hok n hn
                refine ⟨by rw [List.map_cons, ← hall], ?_, ?_⟩
                · rw [hcount, List.length_cons]
                  omega
                · rw [hwritten, List.flatten_cons, List.append_assoc]

theorem take_flatten_prefix (rows : List Bytes) (k : Nat) :
    (rows.take k).flatten <+: rows.flatten := by
  refine ⟨(rows.drop k).flatten, ?_⟩
  rw [← List.flatten_append, List.take_append_drop]

/-- What is written through a device: all rows and their number, or a part of those before
the failure, and all of these if the device is reliable. -/
theorem writeAllRows_spec (shards : List Bytes) (device : Device) :
    (∀ n, (writeAllRows o wire path opts shards device).2 = .ok n →
      rowResults o wire opts shards =
          (okPrefix (rowResults o wire opts shards)).map .ok ∧
        n = (okPrefix (rowResults o wire opts shards)).length ∧
        (writeAllRows o wire path opts shards device).1 =
          (okPrefix (rowResults o wire opts shards)).flatten ∧
        device.settled (writeAllRows o wire path opts shards device).1 =
          (writeAllRows o wire path opts shards device).1) ∧
    (writeAllRows o wire path opts shards device).1 <+:
      (okPrefix (rowResults o wire opts shards)).flatten ∧
    (device.Reliable → (writeAllRows o wire path opts shards device).1 =
      (okPrefix (rowResults o wire opts shards)).flatten) := by
  obtain ⟨hdevice, ⟨k, hk⟩, hreliable, hok⟩ := @writeResults_spec wire path
    (rowResults o wire opts shards) ⟨device, []⟩ 0
  rw [← writeShards_eq] at hdevice hk hreliable hok
  simp only [writeAllRows]
  generalize writeShards o wire path opts shards ⟨device, []⟩ 0 = written at *
  obtain ⟨sink, result⟩ := written
  simp only [List.nil_append, Nat.zero_add] at hdevice hk hreliable hok
  have hprefix : sink.accepted <+: (okPrefix (rowResults o wire opts shards)).flatten := by
    rw [hk]
    exact take_flatten_prefix _ k
  cases result with
  | error e => exact ⟨fun n hn => (by cases hn), hprefix, hreliable⟩
  | ok count =>
      simp only
      rw [hdevice]
      cases hflush : device.flush sink.accepted with
      | error e => exact ⟨fun n hn => (by cases hn), hprefix, hreliable⟩
      | ok u =>
          refine ⟨fun n hn => ?_, hprefix, hreliable⟩
          cases hn
          obtain ⟨hall, hcount, hwritten⟩ := hok count rfl
          exact ⟨hall, hcount, hwritten, device.settled_of_flush _ hflush⟩

/-! ## Destinations -/

/-- The options are valid, and the path is a local file that can be created.  From here on the
old content is lost. -/
def CreatesFile (o : Outside) (wire : Wire) (raw : RawOptions) (path : String)
    (opts : Options) : Prop :=
  parseOptions o.debug wire raw = .ok opts ∧ isGlob path = false ∧
    Cloud.classify o.parseUrl path = .ok (.localPath path) ∧ o.createError path = none

/-- What `close` can do: nothing, put a remote object, or write a local file. -/
theorem close_cases (o : Outside) (wire : Wire) (raw : RawOptions) (shards : List Bytes)
    (path : String) (world : World) :
    (∃ e, close o wire raw shards path world = (.error e, world) ∧
      ∀ opts, ¬ CreatesFile o wire raw path opts) ∨
    (∃ opts url count, parseOptions o.debug wire raw = .ok opts ∧
      Cloud.classify o.parseUrl path = .ok (.remote url) ∧
      (writeAllRows o wire path opts shards Device.memory).2 = .ok count ∧
      close o wire raw shards path world = (.ok count, world.put (.remote url)
        (writeAllRows o wire path opts shards Device.memory).1)) ∨
    ∃ opts, CreatesFile o wire raw path opts ∧
      close o wire raw shards path world =
        ((writeAllRows o wire path opts shards (o.device path)).2,
          world.put (.localPath path) ((o.device path).settled
            (writeAllRows o wire path opts shards (o.device path)).1)) := by
  unfold close
  cases hopts : parseOptions o.debug wire raw with
  | error e =>
      refine .inl ⟨e, rfl, fun opts h => ?_⟩
      cases hopts.symm.trans h.1
  | ok opts =>
      by_cases hglob : isGlob path = true
      · -- A pattern is refused before anything is opened.
        simp only [hglob, if_true]
        refine .inl ⟨_, rfl, fun opts h => ?_⟩
        cases hglob.symm.trans h.2.1
      · rw [Bool.not_eq_true] at hglob
        simp only [hglob, Bool.false_eq_true, if_false]
        cases hclassify : Cloud.classify o.parseUrl path with
        | error e =>
            refine .inl ⟨_, rfl, fun opts h => ?_⟩
            cases hclassify.symm.trans h.2.2.1
        | ok destination =>
            cases destination with
            | remote url =>
                -- A remote destination is not a local file, whatever the options.
                have hremote (opts' : Options) : ¬ CreatesFile o wire raw path opts' := by
                  intro h
                  cases hclassify.symm.trans h.2.2.1
                simp only
                generalize hrun : writeAllRows o wire path opts shards Device.memory = written
                obtain ⟨buffer, result⟩ := written
                cases result with
                | error e => exact .inl ⟨e, rfl, hremote⟩
                | ok count =>
                    simp only
                    cases hput : writeObject o.cloud o.construct url [] buffer with
                    | error e => exact .inl ⟨_, rfl, hremote⟩
                    | ok u => exact .inr (.inl ⟨opts, url, count, rfl, rfl, by rw [hrun],
                        by rw [hrun]⟩)
            | localPath p =>
                obtain rfl := classify_local hclassify
                simp only
                cases hcreate : o.createError p with
                | some e =>
                    refine .inl ⟨_, rfl, fun opts h => ?_⟩
                    cases hcreate.symm.trans h.2.2.2
                | none => exact .inr (.inr ⟨opts, ⟨hopts, hglob, hclassify, hcreate⟩, rfl⟩)

/-- A successful `close` wrote the encodings of all rows in append order, and counted them. -/
theorem close_ok {raw : RawOptions} {shards : List Bytes} {world : World} {n : Nat}
    (hclose : (close o wire raw shards path world).1 = .ok n) :
    ∃ opts destination, ∃ rows : List Bytes, parseOptions o.debug wire raw = .ok opts ∧
      Cloud.classify o.parseUrl path = .ok destination ∧
      rowResults o wire opts shards = rows.map .ok ∧ n = rows.length ∧
      (close o wire raw shards path world).2 = world.put destination rows.flatten := by
  rcases close_cases o wire raw shards path world with ⟨e, heq, -⟩ |
      ⟨opts, url, count, hopts, hclassify, hresult, heq⟩ | ⟨opts, hcreates, heq⟩
  · rw [heq] at hclose
    cases hclose
  · obtain ⟨hok, -, -⟩ := @writeAllRows_spec o wire path opts shards Device.memory
    obtain ⟨hall, hcount, hwritten, -⟩ := hok count hresult
    rw [heq] at hclose ⊢
    cases hclose
    exact ⟨opts, .remote url, _, hopts, hclassify, hall, hcount, by rw [hwritten]⟩
  · obtain ⟨hok, -, -⟩ := @writeAllRows_spec o wire path opts shards (o.device path)
    obtain ⟨hopts, -, hclassify, -⟩ := hcreates
    rw [heq] at hclose ⊢
    -- The flush went through, so the file holds all that the writer accepted.
    obtain ⟨hall, hcount, hwritten, hsettled⟩ := hok n hclose
    exact ⟨opts, .localPath path, _, hopts, hclassify, hall, hcount,
      by rw [hsettled, hwritten]⟩

/-- A failed `close` changed at most a local file that it had created.  That file holds a
front part of what was to be written. -/
theorem close_error {raw : RawOptions} {shards : List Bytes} {world : World} {e : Fault}
    (hclose : (close o wire raw shards path world).1 = .error e) :
    ((∀ opts, ¬ CreatesFile o wire raw path opts) →
      (close o wire raw shards path world).2 = world) ∧
    ∀ opts, CreatesFile o wire raw path opts → ∃ content,
      (close o wire raw shards path world).2 = world.put (.localPath path) content ∧
      content <+: (okPrefix (rowResults o wire opts shards)).flatten ∧
      ((o.device path).Reliable →
        content = (okPrefix (rowResults o wire opts shards)).flatten) := by
  rcases close_cases o wire raw shards path world with ⟨e, heq, hnone⟩ |
      ⟨opts, url, count, hopts, hclassify, hresult, heq⟩ | ⟨opts, hcreates, heq⟩
  · rw [heq]
    exact ⟨fun _ => rfl, fun opts h => absurd h (hnone opts)⟩
  · rw [heq] at hclose
    cases hclose
  · obtain ⟨-, hprefix, hreliable⟩ :=
      @writeAllRows_spec o wire path opts shards (o.device path)
    rw [heq]
    constructor
    · exact fun hnone => absurd hcreates (hnone opts)
    · intro opts' hcreates'
      obtain rfl : opts = opts' := Except.ok.inj (hcreates.1.symm.trans hcreates'.1)
      refine ⟨_, rfl, ((o.device path).settled_part _).trans hprefix, fun hdevice => ?_⟩
      rw [← hreliable hdevice]
      exact (o.device path).settled_of_flush _ (hdevice.2 _)

/-- After a successful COPY TO the destination holds the encodings of all rows in append
order, and the count is their number.  A failed one leaves everything as it was, unless
a local file had been created: that one then holds encodings of the rows before the
failure, all of them if they could be written, and nothing else has changed. -/
theorem copy_to_destination (o : Outside) (wire : Wire) (raw : RawOptions)
    (shards : List Bytes) (path : String) (world : World) :
    (∀ n, (close o wire raw shards path world).1 = .ok n →
      ∃ opts destination, ∃ rows : List Bytes, parseOptions o.debug wire raw = .ok opts ∧
        Cloud.classify o.parseUrl path = .ok destination ∧
        rowResults o wire opts shards = rows.map .ok ∧ n = rows.length ∧
        (close o wire raw shards path world).2 = world.put destination rows.flatten) ∧
    (∀ e, (close o wire raw shards path world).1 = .error e →
      ((∀ opts, ¬ CreatesFile o wire raw path opts) →
        (close o wire raw shards path world).2 = world) ∧
      ∀ opts, CreatesFile o wire raw path opts → ∃ content,
        (close o wire raw shards path world).2 = world.put (.localPath path) content ∧
        content <+: (okPrefix (rowResults o wire opts shards)).flatten ∧
        ((o.device path).Reliable →
          content = (okPrefix (rowResults o wire opts shards)).flatten)) :=
  ⟨fun _ => close_ok, fun _ => close_error⟩

/-! ## A run that fails -/

/-- A worker whose batches hold one column of intervals: a null for each byte 0, and
otherwise an interval.  Its file system takes every write. -/
def intervals : Outside where
  rt := .bare
  codecs := concreteCodecs
  debug s := s
  readBatch blob := .ok ⟨[⟨"i", .other "Interval", true⟩],
    blob.map fun b => [if b = 0 then .null else .bool true]⟩
  parseUrl _ := .error "relative URL without a base"
  cloud := offline
  construct _ _ := .error "no store"
  createError _ := none
  device _ := .memory
  pathErrorText _ e := e

def oneFile : World where
  files := fun p => if p = "rows.cbor" then some [0x01, 0x02] else none
  objects _ := none

def arrays : RawOptions := ⟨some "array", none⟩

theorem intervals_creates :
    CreatesFile intervals .cbor arrays "rows.cbor" ⟨.array, none⟩ := by
  have hmode : (trim "array").toLower = "array" := by decide +kernel
  have hscheme : splitOnce "://".toList "rows.cbor".toList = none := by decide +kernel
  refine ⟨?_, by decide +kernel, ?_, rfl⟩
  · simp [parseOptions, parseRowShape, parseCanonical, arrays, hmode, Except.bind, Except.map]
  · rw [Cloud.classify, hscheme]

theorem close_intervals (shards : List Bytes) :
    close intervals .cbor arrays shards "rows.cbor" oneFile =
      ((writeAllRows intervals .cbor "rows.cbor" ⟨.array, none⟩ shards Device.memory).2,
        oneFile.put (.localPath "rows.cbor")
          (writeAllRows intervals .cbor "rows.cbor" ⟨.array, none⟩ shards Device.memory).1) := by
  obtain ⟨hopts, hglob, hclassify, hcreate⟩ := intervals_creates
  simp only [close, hopts, hglob, hclassify, hcreate, Bool.false_eq_true, if_false]
  rfl

theorem copy_to_destination_intervals :
    (∃ rows : List Bytes, 2 = rows.length ∧
      (close intervals .cbor arrays [[0], [0]] "rows.cbor" oneFile).2.files "rows.cbor" =
        some rows.flatten) ∧
    ∃ content, content = [0x81, 0xf6] ∧
      (close intervals .cbor arrays [[0, 1]] "rows.cbor" oneFile).2 =
        oneFile.put (.localPath "rows.cbor") content := by
  constructor
  · obtain ⟨opts, destination, rows, -, hclassify, -, hcount, hworld⟩ :=
      (copy_to_destination intervals .cbor arrays [[0], [0]] "rows.cbor" oneFile).1 2
        (by rw [close_intervals]; rfl)
    refine ⟨rows, hcount, ?_⟩
    obtain rfl := Except.ok.inj (hclassify.symm.trans intervals_creates.2.2.1)
    rw [hworld]
    exact World.at_put oneFile (.localPath "rows.cbor") rows.flatten
  · obtain ⟨content, hworld, -, hwritten⟩ :=
      ((copy_to_destination intervals .cbor arrays [[0, 1]] "rows.cbor" oneFile).2
        (.runtimeError "encode: unsupported input type Interval")
        (by rw [close_intervals]; rfl)).2 _ intervals_creates
    exact ⟨content, hwritten Device.memory_reliable, hworld⟩

/-- An interval behind a null fails the copy, and the row file is lost. -/
theorem local_file_lost :
    (close intervals .cbor arrays [[0, 1]] "rows.cbor" oneFile).1 =
        .error (.runtimeError "encode: unsupported input type Interval") ∧
      oneFile.files "rows.cbor" = some [0x01, 0x02] ∧
      (close intervals .cbor arrays [[0, 1]] "rows.cbor" oneFile).2.files "rows.cbor" =
        some [0x81, 0xf6] := by
  rw [close_intervals]
  refine ⟨rfl, rfl, ?_⟩
  exact World.at_put oneFile (.localPath "rows.cbor") [0x81, 0xf6]

end VgiCbor.CopyDestination
