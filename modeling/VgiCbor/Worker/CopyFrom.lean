import Mathlib
import VgiCbor.Worker.BuildBatch

/-!
# COPY FROM

`RowProducer` reads a list of sources one item at a time and emits a batch for
every `batchRows` usable rows.  Seen from outside, its state is the list of
events still to come (`RowProducer.events`): items, and the failures between
them.  `nextRow` takes the first event off that list, and all statements about
whole runs are proved on it.
-/

namespace VgiCbor.Copy

open ItemStream

/-! ## The producer -/

/-- One source of rows: it fails to open, or it delivers items and then ends, cleanly or in a
decode error. -/
inductive Source where
  | unopenable (e : Fault)
  | opened (stream : Parsed Value)

/-- What one COPY FROM call is given.  `batchRows` is `READ_BATCH_ROWS`; the statements about
runs leave it open. -/
structure ReadCall where
  schema : Schema
  wire : Wire
  shape : RowShape
  ignoreErrors : Bool
  batchRows : Nat

/-- The sources still to read, in reading order, and the one being decoded.  A producer
without an open source opens the next one when a row is asked for. -/
structure RowProducer where
  pending : List Source
  items : Option (Parsed Value)

/-- A producer before its first open. -/
def RowProducer.start (sources : List Source) : RowProducer := ⟨sources, none⟩

/-- Open the next source; `false` when they are all consumed.  A source that fails to open is
off the list all the same. -/
def RowProducer.advance (p : RowProducer) : Except Fault Bool × RowProducer :=
  match p.pending with
  | [] => (.ok false, p)
  | .unopenable e :: rest => (.error e, { p with pending := rest })
  | .opened stream :: rest => (.ok true, { p with pending := rest, items := some stream })

/-- The error of a source that ends in a decode error.  It tells the user which option loads
the rows in front of it. -/
def decodeFailed (wire : Wire) (e : String) : Fault :=
  .valueError (s!"{wire.format}: {wire.label} decode failed at {e} " ++
    "(set ignore_errors true to load the rows before it)")

/-- The error of an item that is not of the declared shape.  It names the shape that
`row_format` asked for. -/
def unusableItem (wire : Wire) (shape : RowShape) : Fault :=
  .valueError (s!"{wire.format}: row_format '{shape.name}' expects every item to be " ++
    s!"{shape.described}, found one that is not (set ignore_errors true to skip it)")

variable (call : ReadCall)

/-- What is left of a producer, for its loops to count down.  An open source counts one and a
source to open counts two, so opening one makes the number smaller. -/
def RowProducer.size (p : RowProducer) : Nat :=
  2 * p.pending.length + if p.items.isSome then 1 else 0

theorem RowProducer.advance_size {p p' : RowProducer} (hitems : p.items = none)
    (h : p.advance = (.ok true, p')) : p'.size < p.size := by
  obtain ⟨pending, items⟩ := p
  obtain rfl : items = none := hitems
  cases pending with
  | nil => cases h
  | cons source rest =>
      cases source with
      | unopenable e => cases h
      | opened stream =>
          cases h
          simp [size]
          omega

/-- The next item across the whole source list, rolling on to the next source when one runs
out.  A decode error ends the list: the sources behind it are dropped. -/
def RowProducer.nextRow (p : RowProducer) : Option (Except Fault Value) × RowProducer :=
  match _hitems : p.items with
  | some stream =>
      match stream.nextItem with
      | (some (.ok item), stream) => (some (.ok item), { p with items := some stream })
      | (some (.error e), _) => (some (.error (decodeFailed call.wire e)), ⟨[], none⟩)
      | (none, _) => nextRow { p with items := none }
  | none =>
      match _hadvance : p.advance with
      | (.ok true, p') => nextRow p'
      | (.ok false, p') => (none, p')
      | (.error e, p') => (some (.error e), p')
termination_by p.size
decreasing_by
  · simp [RowProducer.size, _hitems]
  · exact RowProducer.advance_size _hitems _hadvance

/-! ## The events to come -/

/-- The items of a source list and its failures, in order; nothing comes after a
decode failure. -/
def sourceEvents : List Source → List (Except Fault Value)
  | [] => []
  | .unopenable e :: rest => .error e :: sourceEvents rest
  | .opened ⟨items, some e⟩ :: _ => items.map .ok ++ [.error (decodeFailed call.wire e)]
  | .opened ⟨items, none⟩ :: rest => items.map .ok ++ sourceEvents rest

/-- The events a producer has still to deliver.  This is all that a caller can learn of its
state, and the state that the statements about runs are proved on. -/
def RowProducer.events (p : RowProducer) : List (Except Fault Value) :=
  match p.items with
  | some stream => sourceEvents call (.opened stream :: p.pending)
  | none => sourceEvents call p.pending

theorem RowProducer.events_items (pending : List Source) (stream : Parsed Value) :
    RowProducer.events call ⟨pending, some stream⟩ =
      match stream.nextItem with
      | (some (.ok item), stream) => .ok item :: RowProducer.events call ⟨pending, some stream⟩
      | (some (.error e), _) => [.error (decodeFailed call.wire e)]
      | (none, _) => RowProducer.events call ⟨pending, none⟩ := by
  obtain ⟨items, error⟩ := stream
  cases items with
  | nil => cases error <;> simp [events, sourceEvents, Parsed.nextItem]
  | cons item items => cases error <;> simp [events, sourceEvents, Parsed.nextItem]

theorem RowProducer.events_advance (pending : List Source) :
    RowProducer.events call ⟨pending, none⟩ =
      match RowProducer.advance ⟨pending, none⟩ with
      | (.ok true, p) => p.events call
      | (.ok false, _) => []
      | (.error e, p) => .error e :: p.events call := by
  cases pending with
  | nil => rfl
  | cons source rest => cases source <;> rfl

/-- A call of `nextRow` delivers the first event and leaves the others.  The loops below are
therefore loops over a list. -/
theorem RowProducer.nextRow_spec (p : RowProducer) :
    (p.nextRow call).1 = (p.events call).head? ∧
      (p.nextRow call).2.events call = (p.events call).tail := by
  fun_induction RowProducer.nextRow call p with
  | case1 p stream hitems item stream' hnext =>
      obtain ⟨pending, _⟩ := p
      cases hitems
      rw [events_items, hnext]
      exact ⟨rfl, rfl⟩
  | case2 p stream hitems e stream' hnext =>
      obtain ⟨pending, _⟩ := p
      cases hitems
      rw [events_items, hnext]
      exact ⟨rfl, rfl⟩
  | case3 p stream hitems stream' hnext ih =>
      obtain ⟨pending, _⟩ := p
      cases hitems
      rw [events_items, hnext]
      exact ih
  | case4 p hitems p' hadvance ih =>
      obtain ⟨pending, _⟩ := p
      cases hitems
      rw [events_advance, hadvance]
      exact ih
  | case5 p hitems p' hadvance =>
      obtain ⟨pending, _⟩ := p
      cases hitems
      cases pending with
      | nil =>
          cases hadvance
          exact ⟨rfl, rfl⟩
      | cons source rest => cases source <;> cases hadvance
  | case6 p hitems e p' hadvance =>
      obtain ⟨pending, _⟩ := p
      cases hitems
      rw [events_advance, hadvance]
      exact ⟨rfl, rfl⟩

theorem RowProducer.events_of_nextRow {p p' : RowProducer} {x : Except Fault Value}
    (h : p.nextRow call = (some x, p')) : p.events call = x :: p'.events call := by
  obtain ⟨hhead, htail⟩ := p.nextRow_spec call
  rw [h] at hhead htail
  rw [htail]
  exact (List.cons_head?_tail hhead.symm).symm

theorem RowProducer.events_of_nextRow_none {p p' : RowProducer}
    (h : p.nextRow call = (none, p')) : p.events call = [] ∧ p'.events call = [] := by
  obtain ⟨hhead, htail⟩ := p.nextRow_spec call
  rw [h] at hhead htail
  have hnil := List.head?_eq_none_iff.1 hhead.symm
  rw [hnil] at htail
  exact ⟨hnil, htail⟩

/-! ## Batches -/

/-- Collect the rows of a batch: up to `batchRows` usable items, or less when the sources end
or fail.  Under `ignoreErrors` a failure closes the batch and an item of another shape is left
out. -/
def RowProducer.fillRows (rows : List Value) (p : RowProducer) :
    Except Fault (List Value) × RowProducer :=
  if rows.length < call.batchRows then
    match _hnext : p.nextRow call with
    | (none, p') => (.ok rows, p')
    | (some (.error e), p') => if call.ignoreErrors then (.ok rows, p') else (.error e, p')
    | (some (.ok item), p') =>
        if call.shape.usable item then fillRows (rows ++ [item]) p'
        else if call.ignoreErrors then fillRows rows p'
        else (.error (unusableItem call.wire call.shape), p')
  else (.ok rows, p)
termination_by (p.events call).length
decreasing_by all_goals rw [RowProducer.events_of_nextRow call _hnext]; exact Nat.lt_succ_self _

/-- The next batch; `none` when no row is left to deliver.  A batch without rows is never
converted: it ends the run, even if sources are left to read. -/
def RowProducer.nextBatch (rt : Runtime) (p : RowProducer) :
    Except Fault (Option RecordBatch) × RowProducer :=
  match p.fillRows call [] with
  | (.error e, p) => (.error e, p)
  | (.ok [], p) => (.ok none, p)
  | (.ok rows, p) =>
      ((convertRows rt call.schema call.shape call.ignoreErrors rows).map some, p)

/-- `Result::transpose` -/
def transpose {ε α : Type} : Except ε (Option α) → Option (Except ε α)
  | .ok none => none
  | .ok (some a) => some (.ok a)
  | .error e => some (.error e)

/-- One call of `next_batch`, as the caller that loops over it sees it: a batch, an error, or
the end. -/
def RowProducer.pull (rt : Runtime) (p : RowProducer) :
    Option (Except Fault RecordBatch) × RowProducer :=
  (transpose (p.nextBatch call rt).1, (p.nextBatch call rt).2)

/-! ## The loop over a list of events -/

/-- What `fillRows` does on the events of a producer: the rows it collects or its error, and
the events behind them. -/
def takeRows (rows : List Value) :
    List (Except Fault Value) → Except Fault (List Value) × List (Except Fault Value)
  | [] => (.ok rows, [])
  | event :: events =>
      if rows.length < call.batchRows then
        match event with
        | .error e => if call.ignoreErrors then (.ok rows, events) else (.error e, events)
        | .ok item =>
            if call.shape.usable item then takeRows (rows ++ [item]) events
            else if call.ignoreErrors then takeRows rows events
            else (.error (unusableItem call.wire call.shape), events)
      else (.ok rows, event :: events)

theorem takeRows_full {rows : List Value} (h : ¬ rows.length < call.batchRows)
    (event : Except Fault Value) (events : List (Except Fault Value)) :
    takeRows call rows (event :: events) = (.ok rows, event :: events) := by
  cases event <;> rw [takeRows, if_neg h]

theorem RowProducer.fillRows_spec (rows : List Value) (p : RowProducer) :
    (p.fillRows call rows).1 = (takeRows call rows (p.events call)).1 ∧
      (p.fillRows call rows).2.events call = (takeRows call rows (p.events call)).2 := by
  fun_induction RowProducer.fillRows call rows p with
  | case1 rows p hroom p' hnext =>
      obtain ⟨hnil, hnil'⟩ := events_of_nextRow_none call hnext
      rw [hnil, hnil']
      exact ⟨rfl, rfl⟩
  | case2 rows p hroom e p' hnext hignore =>
      rw [events_of_nextRow call hnext, takeRows, if_pos hroom]
      simp [hignore]
  | case3 rows p hroom e p' hnext hignore =>
      rw [events_of_nextRow call hnext, takeRows, if_pos hroom]
      simp [hignore]
  | case4 rows p hroom item p' hnext husable ih =>
      rw [events_of_nextRow call hnext, takeRows, if_pos hroom]
      simpa [husable] using ih
  | case5 rows p hroom item p' hnext husable hignore ih =>
      rw [events_of_nextRow call hnext, takeRows, if_pos hroom]
      simpa [husable, hignore] using ih
  | case6 rows p hroom item p' hnext husable hignore =>
      rw [events_of_nextRow call hnext, takeRows, if_pos hroom]
      simp [husable, hignore]
  | case7 rows p hfull =>
      cases hevents : p.events call with
      | nil => exact ⟨rfl, rfl⟩
      | cons event events => rw [takeRows_full call hfull]; exact ⟨rfl, rfl⟩

/-- What a call reports for the rows it collected.  No rows are the end of the run. -/
def batchOf (rt : Runtime) : Except Fault (List Value) → Option (Except Fault RecordBatch)
  | .error e => some (.error e)
  | .ok [] => none
  | .ok rows => some (convertRows rt call.schema call.shape call.ignoreErrors rows)

/-- One call of `next_batch` takes the rows of one batch off the events, and reports what they
convert to. -/
theorem RowProducer.pull_spec (rt : Runtime) (p : RowProducer) :
    (p.pull call rt).1 = batchOf call rt (takeRows call [] (p.events call)).1 ∧
      (p.pull call rt).2.events call = (takeRows call [] (p.events call)).2 := by
  obtain ⟨hrows, hrest⟩ := p.fillRows_spec call []
  rw [← hrows, ← hrest]
  unfold pull nextBatch batchOf
  rcases p.fillRows call [] with ⟨_ | rows, p'⟩
  · exact ⟨rfl, rfl⟩
  · cases rows with
    | nil => exact ⟨rfl, rfl⟩
    | cons row rows =>
        constructor
        · show transpose ((convertRows _ _ _ _ _).map some) =
            some (convertRows rt call.schema call.shape call.ignoreErrors (row :: rows))
          cases convertRows rt call.schema call.shape call.ignoreErrors (row :: rows) <;> rfl
        · rfl

/-! ## Strict reads -/

/-- The items before the first failure: an error, or an item of another shape.  A strict run
loads no others. -/
def leading (shape : RowShape) : List (Except Fault Value) → List Value
  | .ok v :: events => if shape.usable v then v :: leading shape events else []
  | _ => []

theorem leading_append {shape : RowShape} {taken : List Value}
    (h : ∀ v ∈ taken, shape.usable v = true) (events : List (Except Fault Value)) :
    leading shape (taken.map .ok ++ events) = taken ++ leading shape events := by
  induction taken with
  | nil => rfl
  | cons v vs ih =>
      rw [List.map_cons, List.cons_append, leading, if_pos (h v (by simp)),
        ih fun w hw => h w (List.mem_cons_of_mem _ hw), List.cons_append]

/-- Without `ignoreErrors` the loop takes usable items off the front, until the
batch is full or nothing is left; it fails at anything else. -/
theorem takeRows_strict (hstrict : call.ignoreErrors = false) (rows : List Value)
    (events : List (Except Fault Value)) :
    match takeRows call rows events with
    | (.ok out, rest) => ∃ taken : List Value, out = rows ++ taken ∧
        events = taken.map .ok ++ rest ∧ (∀ v ∈ taken, call.shape.usable v = true) ∧
        (rest = [] ∨ call.batchRows ≤ out.length) ∧ (rows.length ≤ call.batchRows → out.length ≤ call.batchRows)
    | (.error _, _) => ∃ (taken : List Value) (bad : Except Fault Value) (rest : _),
        events = taken.map .ok ++ bad :: rest ∧ (∀ v ∈ taken, call.shape.usable v = true) ∧
        ∀ v, bad = .ok v → call.shape.usable v = false := by
  induction events generalizing rows with
  | nil => exact ⟨[], by simp, rfl, by simp, Or.inl rfl, id⟩
  | cons event events ih =>
      -- A full batch stops the loop before it looks at the event.
      by_cases hroom : rows.length < call.batchRows
      · cases event with
        | error e =>
            rw [takeRows, if_pos hroom, hstrict]
            exact ⟨[], .error e, events, rfl, by simp, by simp⟩
        | ok item =>
            cases husable : call.shape.usable item with
            | false =>
                rw [takeRows, if_pos hroom]
                simp only [husable, hstrict, Bool.false_eq_true, if_false]
                -- An item of another shape is an error: nothing is skipped.
                refine ⟨[], .ok item, events, rfl, by simp, fun v hv => ?_⟩
                cases hv
                exact husable
            | true =>
                -- The item joins the batch, and the loop goes on with one more row.
                have hrest := ih (rows ++ [item])
                rw [takeRows, if_pos hroom]
                simp only [husable, if_true]
                rcases hloop : takeRows call (rows ++ [item]) events with ⟨e | out, rest⟩
                · rw [hloop] at hrest
                  obtain ⟨taken, bad, rest', hevents, htaken, hbad⟩ := hrest
                  refine ⟨item :: taken, bad, rest', by rw [hevents]; rfl, ?_, hbad⟩
                  exact fun v hv => (List.mem_cons.1 hv).elim (fun h => h ▸ husable) (htaken v)
                · rw [hloop] at hrest
                  obtain ⟨taken, hout, hevents, htaken, hfull, hshort⟩ := hrest
                  refine ⟨item :: taken, by rw [hout]; simp, by rw [hevents]; rfl, ?_, hfull, ?_⟩
                  · exact fun v hv => (List.mem_cons.1 hv).elim (fun h => h ▸ husable) (htaken v)
                  · exact fun _ => hshort (by simpa using Nat.succ_le_of_lt hroom)
      · rw [takeRows_full call hroom]
        exact ⟨[], by simp, rfl, by simp, Or.inr (by omega), id⟩

/-- A strict run from any state: it ends, its batches are built from consecutive
chunks of the leading items, and a clean end means that nothing else was there. -/
theorem strict_run (rt : Runtime) (hstrict : call.ignoreErrors = false)
    (hlimit : 1 ≤ call.batchRows) (p : RowProducer) :
    ∃ (chunks : List (List Value)) (batches : List RecordBatch) (failure : Option Fault)
      (stopped : RowProducer), Drains (RowProducer.pull call rt) p batches failure stopped ∧
      chunks.mapM (buildBatch rt call.schema call.shape) = .ok batches ∧
      (∀ chunk ∈ chunks, chunk ≠ [] ∧ chunk.length ≤ call.batchRows) ∧
      (chunks.flatten <+: leading call.shape (p.events call)) ∧
      (failure = none → p.events call = chunks.flatten.map .ok ∧
        ∀ v ∈ chunks.flatten, call.shape.usable v = true) := by
  -- Every batch takes at least one event, so the events left to read decrease.
  induction hlen : (p.events call).length using Nat.strong_induction_on generalizing p with
  | _ n ih =>
      obtain ⟨hpull, hrest⟩ := p.pull_spec call rt
      have htake := takeRows_strict call hstrict [] (p.events call)
      rcases htaken : takeRows call [] (p.events call) with ⟨e | out, rest⟩
      · -- The loop met an error or an item of another shape.
        rw [htaken] at hpull
        have hfail : RowProducer.pull call rt p = (some (.error e), (p.pull call rt).2) :=
          Prod.ext hpull rfl
        exact ⟨[], [], some e, _, .failed hfail, rfl, by simp, by simp, by simp⟩
      · rw [htaken] at hpull hrest htake
        obtain ⟨taken, hout, hevents, husable, hfull, hshort⟩ := htake
        rw [List.nil_append] at hout
        subst hout
        cases out with
        | nil =>
            -- No row and room for one: the sources are at their end.
            have hend : RowProducer.pull call rt p = (none, (p.pull call rt).2) :=
              Prod.ext hpull rfl
            have hnil : rest = [] := hfull.resolve_right (by simp; omega)
            subst hnil
            exact ⟨[], [], none, _, .finished hend, rfl, by simp, by simp,
              fun _ => ⟨hevents, by simp⟩⟩
        | cons row rows =>
            -- Without `ignoreErrors` there is no retry row by row.
            have hconvert : convertRows rt call.schema call.shape call.ignoreErrors (row :: rows) =
                buildBatch rt call.schema call.shape (row :: rows) := by
              unfold convertRows
              rw [hstrict]
              cases buildBatch rt call.schema call.shape (row :: rows) <;> rfl
            have hleading : leading call.shape (p.events call) =
                (row :: rows) ++ leading call.shape rest := by
              rw [hevents, leading_append husable]
            have hnext : RowProducer.pull call rt p =
                (some (buildBatch rt call.schema call.shape (row :: rows)),
                  (p.pull call rt).2) := by
              rw [← hconvert]
              exact Prod.ext hpull rfl
            cases hbuild : buildBatch rt call.schema call.shape (row :: rows) with
            | error e =>
                rw [hbuild] at hnext
                exact ⟨[], [], some e, _, .failed hnext, rfl, by simp, by simp, by simp⟩
            | ok batch =>
                rw [hbuild] at hnext
                -- The batch is emitted, and the rest is a run with fewer events.
                have hless : (((p.pull call rt).2).events call).length < n := by
                  rw [hrest, ← hlen, hevents, List.length_append, List.length_map,
                    List.length_cons]
                  exact Nat.lt_add_of_pos_left (Nat.succ_pos _)
                obtain ⟨chunks, batches, failure, stopped, hrun, hbuilt, hsize, hfront, hclean⟩ :=
                  ih _ hless _ rfl
                rw [hrest] at hfront hclean
                refine ⟨(row :: rows) :: chunks, batch :: batches, failure, stopped,
                  .item hnext hrun, ?_, ?_, ?_, ?_⟩
                · rw [List.mapM_cons, hbuild, hbuilt]
                  rfl
                · intro chunk hchunk
                  rcases List.mem_cons.1 hchunk with rfl | hchunk
                  · exact ⟨by simp, hshort (by simp)⟩
                  · exact hsize chunk hchunk
                · rw [List.flatten_cons, hleading]
                  exact (List.prefix_append_right_inj _).2 hfront
                · intro hnone
                  obtain ⟨hall, hok⟩ := hclean hnone
                  refine ⟨?_, fun v hv => ?_⟩
                  · rw [List.flatten_cons, List.map_append, ← hall]
                    exact hevents
                  · rw [List.flatten_cons, List.mem_append] at hv
                    exact hv.elim (husable v) (hok v)

/-! ## Runs over a list of sources -/

/-- Every source opens and ends cleanly, so that no event is a failure. -/
def AllClean (sources : List Source) : Prop :=
  ∀ s ∈ sources, ∃ items, s = .opened ⟨items, none⟩

/-- The items of all sources, in reading order. -/
def sourceItems : List Source → List Value
  | [] => []
  | .unopenable _ :: rest => sourceItems rest
  | .opened stream :: rest => stream.items ++ sourceItems rest

/-- The items before the first source that fails to open or to decode.  The items that such a
source delivers before its decode error are among them. -/
def beforeFailure : List Source → List Value
  | [] => []
  | .unopenable _ :: _ => []
  | .opened ⟨items, some _⟩ :: _ => items
  | .opened ⟨items, none⟩ :: rest => items ++ beforeFailure rest

theorem leading_items {shape : RowShape} {events : List (Except Fault Value)} (rest : List Value)
    (h : leading shape events = rest.takeWhile shape.usable) (items : List Value) :
    leading shape (items.map .ok ++ events) = (items ++ rest).takeWhile shape.usable := by
  induction items with
  | nil => exact h
  | cons v vs ih =>
      rw [List.map_cons, List.cons_append, leading, List.cons_append, List.takeWhile_cons, ih]

theorem leading_sourceEvents (shape : RowShape) (sources : List Source) :
    leading shape (sourceEvents call sources) =
      (beforeFailure sources).takeWhile shape.usable := by
  fun_induction beforeFailure sources with
  | case1 => rfl
  | case2 => rfl
  | case3 items e rest =>
      rw [sourceEvents, leading_items [] rfl, List.append_nil]
  | case4 items rest ih =>
      rw [sourceEvents, leading_items _ ih]

/-- Events that are all items come from sources that are all clean. -/
theorem allClean_of_events {sources : List Source} {vs : List Value}
    (h : sourceEvents call sources = vs.map .ok) :
    AllClean sources ∧ vs = sourceItems sources := by
  have hno (e : Fault) : (.error e : Except Fault Value) ∉ vs.map .ok := by simp
  fun_induction sourceEvents call sources generalizing vs with
  | case1 => exact ⟨by simp [AllClean], List.map_eq_nil_iff.1 h.symm⟩
  | case2 e rest ih => exact absurd (by rw [← h]; simp) (hno e)
  | case3 items e rest => exact absurd (by rw [← h]; simp) (hno (decodeFailed call.wire e))
  | case4 items rest ih =>
      obtain ⟨vs₁, vs₂, rfl, h₁, h₂⟩ := List.map_eq_append_iff.1 h.symm
      have hitems : vs₁ = items :=
        List.map_injective_iff.2 (fun a b hab => by cases hab; rfl) h₁
      obtain ⟨hclean, hrest⟩ := ih h₂.symm (by simp)
      refine ⟨fun s hs => ?_, by rw [sourceItems, hitems, hrest]⟩
      rcases List.mem_cons.1 hs with rfl | hs
      · exact ⟨items, rfl⟩
      · exact hclean s hs

theorem prefix_takeWhile {α : Type} {p : α → Bool} {xs ys : List α} (h : xs <+: ys)
    (hp : ∀ x ∈ xs, p x = true) : xs <+: ys.takeWhile p := by
  induction xs generalizing ys with
  | nil => exact List.nil_prefix
  | cons x xs ih =>
      obtain ⟨zs, rfl⟩ := h
      rw [List.cons_append, List.takeWhile_cons, if_pos (hp x (by simp)), List.prefix_cons_inj]
      exact ih (List.prefix_append xs zs) fun z hz => hp z (List.mem_cons_of_mem _ hz)

/-- The batches of chunks that fit emit the rows their items build alone, wherever the items
are cut into chunks. -/
theorem batches_rows {rt : Runtime} {target : Target} {shape : RowShape}
    {chunks : List (List Value)} {batches : List RecordBatch}
    (hbuilt : chunks.mapM (buildBatch rt target.schema shape) = .ok batches)
    (hfits : ∀ chunk ∈ chunks, RowsFit rt target shape chunk) :
    chunks.flatten.map (rowOf rt target.schema shape) =
        (batches.flatMap RecordBatch.rows).map some ∧
      ∀ v ∈ chunks.flatten, converts rt target.schema shape v = true := by
  have hall := Traverse.forall₂_of_mapM_ok hbuilt
  clear hbuilt
  induction hall with
  | nil => exact ⟨rfl, by simp⟩
  | @cons chunk batch chunks batches hbatch _ ih =>
      obtain ⟨hrows, hok⟩ := buildBatch_rowOf (hfits chunk (by simp)) hbatch
      obtain ⟨hrest, hokRest⟩ := ih fun c hc => hfits c (List.mem_cons_of_mem _ hc)
      constructor
      · rw [List.flatten_cons, List.map_append, hrows, hrest, List.flatMap_cons, List.map_append]
      · intro v hv
        rw [List.flatten_cons, List.mem_append] at hv
        exact hv.elim (hok v) (hokRest v)

/-- A strict COPY FROM loses, repeats and reorders nothing.  Whatever the sources,
the run ends; its batches are built from consecutive nonempty chunks of at most
`batchRows` items.  It ends cleanly only if every source was read to a clean end and
every item was usable, and then the chunks are all items in order; otherwise they
are a prefix of what precedes the first failure.  Where rows are independent, each
item also converts alone and the rows emitted are theirs. -/
theorem strict_copy_from (rt : Runtime) (call : ReadCall) (sources : List Source)
    (hstrict : call.ignoreErrors = false) (hlimit : 1 ≤ call.batchRows) :
    ∃ (chunks : List (List Value)) (batches : List RecordBatch) (failure : Option Fault)
      (stopped : RowProducer),
      Drains (RowProducer.pull call rt) (.start sources) batches failure stopped ∧
      chunks.mapM (buildBatch rt call.schema call.shape) = .ok batches ∧
      (∀ chunk ∈ chunks, chunk ≠ [] ∧ chunk.length ≤ call.batchRows) ∧
      (chunks.flatten <+: (beforeFailure sources).takeWhile call.shape.usable) ∧
      (failure = none → AllClean sources ∧ (∀ v ∈ sourceItems sources, call.shape.usable v = true) ∧
        chunks.flatten = sourceItems sources) ∧
      (∀ target : Target, target.schema = call.schema →
        (∀ chunk ∈ chunks, RowsFit rt target call.shape chunk) →
        (chunks.flatten <+: (beforeFailure sources).takeWhile fun v =>
          call.shape.usable v && converts rt call.schema call.shape v) ∧
        chunks.flatten.map (rowOf rt call.schema call.shape) =
          (batches.flatMap RecordBatch.rows).map some) := by
  obtain ⟨chunks, batches, failure, stopped, hrun, hbuilt, hsize, hfront, hclean⟩ :=
    strict_run call rt hstrict hlimit (.start sources)
  have hevents : (RowProducer.start sources).events call = sourceEvents call sources := rfl
  rw [hevents, leading_sourceEvents] at hfront
  rw [hevents] at hclean
  refine ⟨chunks, batches, failure, stopped, hrun, hbuilt, hsize, hfront, ?_, ?_⟩
  · intro hnone
    obtain ⟨hall, husable⟩ := hclean hnone
    obtain ⟨hsources, hitems⟩ := allClean_of_events call hall
    exact ⟨hsources, hitems ▸ husable, hitems⟩
  · intro target htarget hfits
    -- A built batch says of each of its rows that it converts alone.
    rw [← htarget] at hbuilt
    obtain ⟨hrows, hok⟩ := batches_rows hbuilt hfits
    rw [← htarget]
    refine ⟨prefix_takeWhile (hfront.trans (List.takeWhile_prefix _)) fun v hv => ?_, hrows⟩
    have husable := List.mem_takeWhile_imp (hfront.subset hv)
    rw [husable, hok v hv]
    rfl

/-- Two files, the second cut short. -/
def cutSources : List Source :=
  [.opened ⟨[.map [(.text "tags", .null)], .map []], none⟩,
    .opened ⟨[.map []], some "item 1: input ended before the item was complete"⟩]

theorem strict_copy_from_cut :
    ∃ (chunks : List (List Value)) (batches : List RecordBatch) (failure : Option Fault)
      (stopped : RowProducer),
      Drains (RowProducer.pull ⟨tagsTarget.schema, .cbor, .map, false, 2⟩ .bare)
        (.start cutSources) batches failure stopped ∧
      (chunks.flatten <+: (beforeFailure cutSources).takeWhile RowShape.map.usable) ∧
      failure ≠ none := by
  obtain ⟨chunks, batches, failure, stopped, hrun, -, -, hfront, hclean, -⟩ :=
    strict_copy_from .bare ⟨tagsTarget.schema, .cbor, .map, false, 2⟩ cutSources rfl (by decide)
  refine ⟨chunks, batches, failure, stopped, hrun, hfront, fun hnone => ?_⟩
  obtain ⟨items, hitems⟩ := (hclean hnone).1 _ (List.mem_cons_of_mem _ List.mem_cons_self)
  cases hitems

end VgiCbor.Copy
