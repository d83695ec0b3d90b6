import VgiCbor.Worker.CopyDestination

/-!
# Interleaved COPY TO executions

The batches of a COPY TO arrive one call at a time and are kept in a storage that all
executions share (`Storage`); the call that closes it encodes what its own execution has
stored.  Calls of different executions may come in any order.  A destination holds what the
last call that closed into it wrote, which is what that execution was given
(`destination_after_run`).
-/

namespace VgiCbor.CopyDestination

open Copy Cloud

/-! ## The storage of the worker -/

/-- The storage that the calls share, by execution, namespace and key.  What is appended
comes last in a scan from the beginning, and changes no scan of anything else. -/
structure Storage where
  State : Type
  append : Bytes → Bytes → Bytes → Bytes → State → State
  /-- Everything that was appended, with its ids. -/
  scan : Bytes → Bytes → Bytes → State → List (Int × Bytes)
  scan_append : ∀ execution ns key blob s, ∃ id,
    scan execution ns key (append execution ns key blob s) =
      scan execution ns key s ++ [(id, blob)]
  scan_append_of_ne : ∀ execution execution' ns key blob s, execution' ≠ execution →
    scan execution' ns key (append execution ns key blob s) = scan execution' ns key s

def SHARD_NS : Bytes := utf8 "cbor_copy_to_shard"

/-! ## Calls -/

/-- One COPY TO: its execution, and what each of its calls is given.  All calls of one copy
are given the same. -/
structure CopyTo where
  execution : Bytes
  wire : Wire
  raw : RawOptions
  path : String

/-- A call to the worker.  Calls of several copies may come in any order. -/
inductive Call where
  | write (copy : CopyTo) (batch : SourceBatch)
  | close (copy : CopyTo)

/-- The buffered batches of all executions, and the destinations: the state that a call
changes. -/
structure Service (storage : Storage) where
  buffered : storage.State
  world : World

variable {storage : Storage}

/-- What an execution has stored, in append order.  The ids of the storage are dropped. -/
def Service.shards (s : Service storage) (execution : Bytes) : List Bytes :=
  (storage.scan execution SHARD_NS [] s.buffered).map Prod.snd

variable (o : Outside) (writeBatch : SourceBatch → Except Fault Bytes)

/-- Check the options and append the batch to the storage of the execution.  Nothing is
encoded yet, and no destination is touched. -/
def write (copy : CopyTo) (batch : SourceBatch) (s : Service storage) :
    Except Fault Unit × Service storage :=
  match parseOptions o.debug copy.wire copy.raw with
  | .error e => (.error e, s)
  | .ok _ =>
      match writeBatch batch with
      | .error e => (.error e, s)
      | .ok blob =>
          (.ok (), { s with
            buffered := storage.append copy.execution SHARD_NS [] blob s.buffered })

/-- Close a COPY TO over what its execution has stored.  The storage stays as it is. -/
def closeCopy (copy : CopyTo) (s : Service storage) : Except Fault Nat × Service storage :=
  let (result, world) :=
    close o copy.wire copy.raw (s.shards copy.execution) copy.path s.world
  (result, { s with world })

/-- The service after one more call. -/
def Service.step (s : Service storage) : Call → Service storage
  | .write copy batch => (write o writeBatch copy batch s).2
  | .close copy => (closeCopy o copy s).2

/-- The service after a run of calls. -/
def Service.after (s : Service storage) (calls : List Call) : Service storage :=
  calls.foldl (Service.step o writeBatch) s

@[simp] theorem Service.after_nil (s : Service storage) : s.after o writeBatch [] = s := rfl

@[simp] theorem Service.after_cons (s : Service storage) (call : Call) (calls : List Call) :
    s.after o writeBatch (call :: calls) =
      (s.step o writeBatch call).after o writeBatch calls := rfl

theorem Service.after_append (s : Service storage) (front back : List Call) :
    s.after o writeBatch (front ++ back) =
      (s.after o writeBatch front).after o writeBatch back := by
  rw [Service.after, List.foldl_append]
  rfl

/-! ## What an execution has stored -/

/-- The batches that the calls hand to an execution, in order. -/
def batchesOf (execution : Bytes) : List Call → List SourceBatch
  | [] => []
  | .write copy batch :: calls =>
      if copy.execution = execution then batch :: batchesOf execution calls
      else batchesOf execution calls
  | .close _ :: calls => batchesOf execution calls

/-- The call stores its batch, in a form that is read back: its options are valid, and the
batch survives Arrow's IPC. -/
def Accepted (copy : CopyTo) (batch : SourceBatch) : Prop :=
  (∃ opts, parseOptions o.debug copy.wire copy.raw = .ok opts) ∧
    ∃ blob, writeBatch batch = .ok blob ∧ o.readBatch blob = .ok batch

variable {o writeBatch}

/-- An appended blob is the last one of its execution, and of no other. -/
theorem Service.shards_append (s : Service storage) (execution execution' blob : Bytes) :
    (⟨storage.append execution SHARD_NS [] blob s.buffered, s.world⟩ :
      Service storage).shards execution' =
        s.shards execution' ++ if execution = execution' then [blob] else [] := by
  unfold Service.shards
  by_cases hown : execution = execution'
  · obtain ⟨id, hscan⟩ := storage.scan_append execution SHARD_NS [] blob s.buffered
    subst hown
    rw [hscan, List.map_append, if_pos rfl]
    rfl
  · rw [storage.scan_append_of_ne _ _ _ _ _ _ (Ne.symm hown), if_neg hown, List.append_nil]

/-- A call changes the storage of the execution it is for only.  A close changes no storage at
all. -/
theorem Service.step_shards (s : Service storage) (execution : Bytes) (call : Call)
    (h : ∀ copy batch, call = .write copy batch → copy.execution = execution →
      Accepted o writeBatch copy batch) :
    ((s.step o writeBatch call).shards execution).map o.readBatch =
      (s.shards execution).map o.readBatch ++ (batchesOf execution [call]).map .ok := by
  cases call with
  | close copy =>
      simp only [batchesOf, List.map_nil, List.append_nil]
      rfl
  | write copy batch =>
      by_cases hown : copy.execution = execution
      · obtain ⟨⟨opts, hopts⟩, blob, hblob, hread⟩ := h copy batch rfl hown
        simp only [Service.step, write, hopts, hblob, s.shards_append, if_pos hown, batchesOf,
          List.map_append, List.map_cons, List.map_nil, hread]
      · rw [batchesOf, if_neg hown, batchesOf, List.map_nil, List.append_nil]
        simp only [Service.step, write]
        split
        · rfl
        · split
          · rfl
          · rw [s.shards_append, if_neg hown, List.append_nil]

theorem batchesOf_append (execution : Bytes) (front back : List Call) :
    batchesOf execution (front ++ back) = batchesOf execution front ++ batchesOf execution back := by
  induction front with
  | nil => rfl
  | cons call calls ih =>
      cases call with
      | close copy => exact ih
      | write copy batch =>
          rw [List.cons_append, batchesOf, batchesOf, ih]
          split_ifs <;> rfl

/-- Whatever the other executions do, an execution has stored the batches it was given, in
order and once each. -/
theorem Service.after_shards (s : Service storage) (execution : Bytes) (calls : List Call)
    (h : ∀ copy batch, Call.write copy batch ∈ calls → copy.execution = execution →
      Accepted o writeBatch copy batch) :
    ((s.after o writeBatch calls).shards execution).map o.readBatch =
      (s.shards execution).map o.readBatch ++ (batchesOf execution calls).map .ok := by
  induction calls generalizing s with
  | nil => simp [batchesOf]
  | cons call calls ih =>
      have hfirst := s.step_shards execution call fun copy batch hcall =>
        h copy batch (hcall ▸ List.mem_cons_self)
      rw [Service.after_cons, ih _ fun copy batch hmem => h copy batch (List.mem_cons_of_mem _ hmem),
        hfirst, List.append_assoc, ← List.map_append, ← batchesOf_append, List.singleton_append]

/-! ## Where calls write -/

/-- What names a destination.  A local path and a URL never name the same one. -/
def Location.name : Location → Bool × String
  | .localPath path => (false, path)
  | .remote url => (true, url.text)

theorem World.at_put_of_ne (w : World) {l m : Location} (h : Location.name m ≠ Location.name l)
    (content : Bytes) : (w.put l content).at m = w.at m := by
  cases l <;> cases m <;> simp_all [Location.name, World.put, World.at]

/-- The copy has another destination, or none. -/
def Elsewhere (o : Outside) (copy : CopyTo) (location : Location) : Prop :=
  ∀ l, Cloud.classify o.parseUrl copy.path = .ok l → Location.name location ≠ Location.name l

/-- `close` writes to its own destination only, whether it succeeds or fails. -/
theorem close_elsewhere (wire : Wire) (raw : RawOptions) (shards : List Bytes) {path : String}
    (world : World) {location : Location}
    (h : ∀ l, Cloud.classify o.parseUrl path = .ok l → Location.name location ≠ Location.name l) :
    (close o wire raw shards path world).2.at location = world.at location := by
  rcases close_cases o wire raw shards path world with ⟨e, heq, -⟩ |
      ⟨opts, url, count, -, hclassify, -, heq⟩ | ⟨opts, ⟨-, -, hclassify, -⟩, heq⟩
  · rw [heq]
  · rw [heq]
    exact World.at_put_of_ne _ (h _ hclassify) _
  · rw [heq]
    exact World.at_put_of_ne _ (h _ hclassify) _

theorem Service.step_elsewhere (s : Service storage) {call : Call} {location : Location}
    (h : ∀ copy, call = .close copy → Elsewhere o copy location) :
    (s.step o writeBatch call).world.at location = s.world.at location := by
  cases call with
  | close copy => exact close_elsewhere _ _ _ _ (h copy rfl)
  | write copy batch =>
      simp only [Service.step, write]
      split
      · rfl
      · split <;> rfl

/-- Calls that close elsewhere leave a destination as it was. -/
theorem Service.after_elsewhere (s : Service storage) (calls : List Call) {location : Location}
    (h : ∀ copy, Call.close copy ∈ calls → Elsewhere o copy location) :
    (s.after o writeBatch calls).world.at location = s.world.at location := by
  induction calls generalizing s with
  | nil => rfl
  | cons call calls ih =>
      rw [Service.after_cons, ih _ fun copy hmem => h copy (List.mem_cons_of_mem _ hmem)]
      exact s.step_elsewhere fun copy hcall => h copy (hcall ▸ List.mem_cons_self)

/-! ## Runs -/

/-- The encodings of the rows of batches. -/
def batchResults (o : Outside) (wire : Wire) (opts : Options) (batches : List SourceBatch) :
    List (Except Fault Bytes) :=
  batches.flatMap fun batch => batch.rows.map (rowBytes o wire opts batch.schema)

theorem rowResults_of_batches {wire : Wire} {opts : Options} {shards : List Bytes}
    {batches : List SourceBatch} (h : shards.map o.readBatch = batches.map .ok) :
    rowResults o wire opts shards = batchResults o wire opts batches := by
  induction shards generalizing batches with
  | nil =>
      obtain rfl : batches = [] := by simpa using h.symm
      rfl
  | cons blob shards ih =>
      cases batches with
      | nil => cases h
      | cons batch batches =>
          obtain ⟨hblob, hrest⟩ := List.cons.inj h
          rw [rowResults, List.flatMap_cons, hblob, batchResults, List.flatMap_cons]
          exact congrArg _ (ih hrest)

/-- Closing a COPY TO over stored batches leaves the encodings of their rows at its
destination, and nothing else there. -/
theorem closeCopy_ok {copy : CopyTo} {s : Service storage} {batches : List SourceBatch} {n : Nat}
    {location : Location} (hclassify : Cloud.classify o.parseUrl copy.path = .ok location)
    (hstored : (s.shards copy.execution).map o.readBatch = batches.map .ok)
    (hclose : (closeCopy o copy s).1 = .ok n) :
    ∃ opts, ∃ rows : List Bytes, parseOptions o.debug copy.wire copy.raw = .ok opts ∧
      batchResults o copy.wire opts batches = rows.map .ok ∧ n = rows.length ∧
      (closeCopy o copy s).2.world.at location = some rows.flatten := by
  obtain ⟨opts, destination, rows, hopts, hdestination, hrows, hcount, hworld⟩ := close_ok hclose
  rw [rowResults_of_batches hstored] at hrows
  refine ⟨opts, rows, hopts, hrows, hcount, ?_⟩
  obtain rfl := Except.ok.inj (hclassify.symm.trans hdestination)
  show (close o copy.wire copy.raw _ copy.path _).2.at location = _
  rw [hworld, World.at_put]

/-- In any run, a destination holds the rows of the last COPY TO that was closed into it:
all that were written under its execution, encoded in the order they were written, whatever
calls of other executions came in between, and whatever calls followed. -/
theorem destination_after_run (o : Outside) (writeBatch : SourceBatch → Except Fault Bytes)
    (s : Service storage) (before after : List Call) (copy : CopyTo) (location : Location) (n : Nat)
    (hfresh : s.shards copy.execution = [])
    (haccepted : ∀ c batch, Call.write c batch ∈ before → c.execution = copy.execution →
      Accepted o writeBatch c batch)
    (hclassify : Cloud.classify o.parseUrl copy.path = .ok location)
    (hclose : (closeCopy o copy (s.after o writeBatch before)).1 = .ok n)
    (hlater : ∀ c, Call.close c ∈ after → Elsewhere o c location) :
    ∃ opts, ∃ rows : List Bytes, parseOptions o.debug copy.wire copy.raw = .ok opts ∧
      batchResults o copy.wire opts (batchesOf copy.execution before) = rows.map .ok ∧
      n = rows.length ∧
      (s.after o writeBatch (before ++ .close copy :: after)).world.at location =
        some rows.flatten := by
  have hstored := s.after_shards copy.execution before haccepted
  rw [hfresh, List.map_nil, List.nil_append] at hstored
  obtain ⟨opts, rows, hopts, hrows, hcount, hworld⟩ := closeCopy_ok hclassify hstored hclose
  refine ⟨opts, rows, hopts, hrows, hcount, ?_⟩
  rw [Service.after_append, Service.after_cons, Service.after_elsewhere _ _ hlater]
  exact hworld

/-- A storage that keeps one list in memory; all ids are zero. -/
def Storage.inMemory : Storage where
  State := List (Bytes × Bytes × Bytes × Bytes)
  append execution ns key blob s := s ++ [(execution, ns, key, blob)]
  scan execution ns key s :=
    (s.filter fun r => r.1 = execution ∧ r.2.1 = ns ∧ r.2.2.1 = key).map fun r => (0, r.2.2.2)
  scan_append execution ns key blob s := by
    refine ⟨0, ?_⟩
    rw [List.filter_append, List.map_append]
    simp
  scan_append_of_ne execution execution' ns key blob s h := by
    rw [List.filter_append, List.map_append]
    simp [Ne.symm h]

/-- A byte 0 for each row of nulls. -/
def packNulls (batch : SourceBatch) : Except Fault Bytes :=
  .ok (batch.rows.map fun cells => if cells.all Cell.isNull then 0 else 1)

def nullInterval : SourceBatch := ⟨[⟨"i", .other "Interval", true⟩], [[.null]]⟩

/-- Two copies under way at the same time. -/
def firstCopy : CopyTo := ⟨[1], .cbor, arrays, "rows.cbor"⟩

@[inherit_doc firstCopy]
def secondCopy : CopyTo := ⟨[2], .cbor, arrays, "*.cbor"⟩

def interleaved : List Call :=
  [.write firstCopy nullInterval, .write secondCopy nullInterval, .close secondCopy,
    .write firstCopy nullInterval]

theorem interleaved_shards :
    ((⟨[], oneFile⟩ : Service .inMemory).after intervals packNulls interleaved).shards
      firstCopy.execution = [[0], [0]] := by
  have hopts := intervals_creates.1
  simp only [interleaved, Service.after_cons, Service.after_nil, Service.step, write, closeCopy,
    firstCopy, secondCopy, hopts, packNulls, nullInterval]
  rfl

theorem destination_after_run_interleaved :
    ∃ rows : List Bytes, 2 = rows.length ∧
      ((⟨[], oneFile⟩ : Service .inMemory).after intervals packNulls
        (interleaved ++ .close firstCopy :: [.close secondCopy])).world.at
          (.localPath "rows.cbor") = some rows.flatten := by
  obtain ⟨hopts, hglob, hclassify, hcreate⟩ := intervals_creates
  have haccepted (c : CopyTo) (hc : parseOptions intervals.debug c.wire c.raw = .ok ⟨.array, none⟩) :
      Accepted intervals packNulls c nullInterval := ⟨⟨_, hc⟩, [0], rfl, rfl⟩
  have hclose : (closeCopy intervals firstCopy
      ((⟨[], oneFile⟩ : Service .inMemory).after intervals packNulls interleaved)).1 = .ok 2 := by
    rw [closeCopy, interleaved_shards]
    simp only [close, firstCopy, hopts, hglob, hclassify, hcreate, Bool.false_eq_true, if_false]
    rfl
  have hscheme : splitOnce "://".toList "*.cbor".toList = none := by decide +kernel
  obtain ⟨opts, rows, -, -, hcount, hworld⟩ :=
    destination_after_run intervals packNulls (⟨[], oneFile⟩ : Service .inMemory) interleaved
      [.close secondCopy] firstCopy (.localPath "rows.cbor") 2 rfl
      (by
        intro c batch hmem hc
        simp only [interleaved, List.mem_cons, List.not_mem_nil, or_false, Call.write.injEq,
          reduceCtorEq, false_or] at hmem
        rcases hmem with ⟨rfl, rfl⟩ | ⟨rfl, rfl⟩ | ⟨rfl, rfl⟩ <;> exact haccepted _ hopts)
      hclassify hclose
      (by
        intro c hmem l hl
        simp only [List.mem_singleton, Call.close.injEq] at hmem
        subst hmem
        rw [secondCopy, Cloud.classify, hscheme] at hl
        cases hl
        simp [Location.name])
  exact ⟨rows, hcount, hworld⟩

end VgiCbor.CopyDestination
