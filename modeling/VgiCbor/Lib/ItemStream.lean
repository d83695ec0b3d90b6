import Mathlib

/-!
# Reading a stream of items, buffered or incrementally

An `ItemDecoder` is a program that asks for one byte at a time until it delivers
an item or fails: what it does depends only on the bytes it has been given.  The
same decoder runs over a byte slice (`run`) and over a buffered reader
(`runOn`).  `parseLoop` takes a whole slice apart; `ItemReader` pulls one item a
call and looks for the end of input before it starts to decode.

A buffered reader may fail at any call.  Draining an item reader delivers what is in the
bytes, or a part of that and then the report of a failed read at the item that was being
read (`drains_failing`); over a reader that never fails it gives what `parseLoop` returns
(`drains_parseLoop`).
-/

namespace ItemStream

variable {σ α β ε : Type}

/-! ## Byte-driven decoders -/

/-- What a decoder does in a given state: it delivers an item, fails, or asks for one more
byte. -/
inductive Action (State α ε : Type) where
  /-- The item is complete. -/
  | done (item : α)
  /-- The bytes so far are not an item. -/
  | fail (e : ε)
  /-- One more byte: `short` if the input ends here, `io` if the reader fails. -/
  | need (short : ε) (io : String → ε) (next : UInt8 → State)

/-- A one-item decoder.  No item is delivered before the first byte is read.  States are
explicit, so that reading can stop and go on at any byte. -/
structure ItemDecoder (α ε : Type) where
  State : Type
  start : State
  act : State → Action State α ε
  progress : ∀ item, act start ≠ .done item

/-- Run a decoder over a slice: the item, and the bytes behind it. -/
def ItemDecoder.runFrom (d : ItemDecoder α ε) :
    d.State → List UInt8 → Except ε (α × List UInt8)
  | q, [] =>
      match d.act q with
      | .done item => .ok (item, [])
      | .fail e => .error e
      | .need short _ _ => .error short
  | q, b :: rest =>
      match d.act q with
      | .done item => .ok (item, b :: rest)
      | .fail e => .error e
      | .need _ _ next => d.runFrom (next b) rest

/-- Decode one item from the front of a slice. -/
def ItemDecoder.run (d : ItemDecoder α ε) (bytes : List UInt8) : Except ε (α × List UInt8) :=
  d.runFrom d.start bytes

variable {d : ItemDecoder α ε}

theorem ItemDecoder.runFrom_suffix {q : d.State} {bytes rest : List UInt8} {item : α}
    (h : d.runFrom q bytes = .ok (item, rest)) : rest <:+ bytes := by
  induction bytes generalizing q with
  | nil =>
      unfold runFrom at h
      split at h
      · cases h
        exact List.suffix_refl _
      · cases h
      · cases h
  | cons b bytes ih =>
      unfold runFrom at h
      split at h
      · cases h
        exact List.suffix_refl _
      · cases h
      · exact (ih h).trans (List.suffix_cons b bytes)

/-- A decoded item has used up at least one byte. -/
theorem ItemDecoder.run_length_lt {bytes rest : List UInt8} {item : α}
    (h : d.run bytes = .ok (item, rest)) : rest.length < bytes.length := by
  unfold run at h
  cases hact : d.act d.start with
  | done first => exact absurd hact (d.progress first)
  | fail e => cases bytes <;> simp [runFrom, hact] at h
  | need short io next =>
      cases bytes with
      | nil => simp [runFrom, hact] at h
      | cons b bytes =>
          simp only [runFrom, hact] at h
          have hle := (runFrom_suffix h).length_le
          simp only [List.length_cons]
          omega

/-- There is no item in the empty input. -/
theorem ItemDecoder.run_nil (d : ItemDecoder α ε) : ∃ e, d.run [] = .error e := by
  cases hrun : d.run [] with
  | error e => exact ⟨e, rfl⟩
  | ok result =>
      obtain ⟨item, rest⟩ := result
      have hlt := run_length_lt hrun
      simp at hlt

/-- A property of states that every step keeps, and every delivered item with it.  This is the
induction rule for runs over one item. -/
theorem ItemDecoder.runFrom_inv {Inv : d.State → Prop}
    {P : α → Prop}
    (hstep : ∀ q short io next b, d.act q = .need short io next → Inv q → Inv (next b))
    (hdone : ∀ q item, d.act q = .done item → Inv q → P item)
    {q : d.State} (hq : Inv q) {bytes rest : List UInt8} {item : α}
    (h : d.runFrom q bytes = .ok (item, rest)) : P item := by
  induction bytes generalizing q with
  | nil =>
      unfold runFrom at h
      split at h
      · rename_i hact
        cases h
        exact hdone q item hact hq
      · cases h
      · cases h
  | cons b bytes ih =>
      unfold runFrom at h
      split at h
      · rename_i hact
        cases h
        exact hdone q item hact hq
      · cases h
      · rename_i hact
        exact ih (hstep q _ _ _ b hact hq) h

/-- Induction over a byte string, item by item: the rest behind a decoded item is shorter. -/
theorem ItemDecoder.run_induction {P : List UInt8 → Prop} (d : ItemDecoder α ε) (nil : P [])
    (error : ∀ bytes e, bytes ≠ [] → d.run bytes = .error e → P bytes)
    (ok : ∀ bytes item rest, d.run bytes = .ok (item, rest) → P rest → P bytes)
    (bytes : List UInt8) : P bytes := by
  induction hlen : bytes.length using Nat.strong_induction_on generalizing bytes with
  | _ n ih =>
      by_cases hne : bytes = []
      · exact hne ▸ nil
      · cases hrun : d.run bytes with
        | error e => exact error bytes e hne hrun
        | ok result =>
            obtain ⟨item, rest⟩ := result
            have hlt := run_length_lt hrun
            exact ok bytes item rest hrun (ih rest.length (by omega) rest rfl)

/-! ## Taking a whole slice apart -/

/-- The items before the end, and the failure that ended them early, if any.  Both kinds of
reader are compared through it. -/
structure Parsed (α : Type) where
  items : List α
  error : Option String

/-- How a stream names its failures: `item {index}: …`. -/
def itemError (index : Nat) (message : String) : String := s!"item {index}: {message}"

/-- Decode items until the slice is used up or an item fails.  `errText` renders
a decoder error, `stuck` is reported for an item that used up nothing. -/
def parseLoop (d : ItemDecoder α ε) (errText : ε → String) (stuck : String)
    (items : List α) (bytes : List UInt8) : Parsed α :=
  if bytes = [] then ⟨items, none⟩
  else
    match _hrun : d.run bytes with
    | .ok (item, rest) =>
        if rest.length = bytes.length then ⟨items ++ [item], some stuck⟩
        else parseLoop d errText stuck (items ++ [item]) rest
    | .error e => ⟨items, some (itemError items.length (errText e))⟩
termination_by bytes.length
decreasing_by exact ItemDecoder.run_length_lt _hrun

section ParseLoop

variable {errText : ε → String} {stuck : String}

theorem parseLoop_nil (items : List α) :
    parseLoop d errText stuck items [] = ⟨items, none⟩ := by
  rw [parseLoop, if_pos rfl]

theorem parseLoop_ok {bytes rest : List UInt8} {item : α}
    (h : d.run bytes = .ok (item, rest)) (items : List α) :
    parseLoop d errText stuck items bytes =
      parseLoop d errText stuck (items ++ [item]) rest := by
  have hlt := ItemDecoder.run_length_lt h
  have hne : bytes ≠ [] := by
    rintro rfl
    simp at hlt
  rw [parseLoop, if_neg hne]
  split
  · next item' rest' hrun =>
      rw [h] at hrun
      cases hrun
      rw [if_neg (by omega)]
  · next e hrun =>
      rw [h] at hrun
      cases hrun

theorem parseLoop_error {bytes : List UInt8} {e : ε} (hne : bytes ≠ [])
    (h : d.run bytes = .error e) (items : List α) :
    parseLoop d errText stuck items bytes =
      ⟨items, some (itemError items.length (errText e))⟩ := by
  rw [parseLoop, if_neg hne]
  split
  · next item' rest' hrun =>
      rw [h] at hrun
      cases hrun
  · next e' hrun =>
      rw [h] at hrun
      cases hrun
      rfl

/-- The items read before only stand in front and shift the index in the error, so the loop is
the loop from the start. -/
theorem parseLoop_items (items : List α) (bytes : List UInt8) :
    (parseLoop d errText stuck items bytes).items =
        items ++ (parseLoop d errText stuck [] bytes).items ∧
      (parseLoop d errText stuck items bytes).error.isSome =
        (parseLoop d errText stuck [] bytes).error.isSome := by
  induction bytes using d.run_induction generalizing items with
  | nil => simp [parseLoop_nil]
  | error bytes e hne hrun => simp [parseLoop_error hne hrun]
  | ok bytes item rest hrun ih =>
      obtain ⟨hitems, herror⟩ := ih (items ++ [item])
      obtain ⟨hfirst, hfail⟩ := ih [item]
      rw [parseLoop_ok hrun, parseLoop_ok hrun [], hitems, herror, List.nil_append, hfirst,
        hfail, List.append_assoc]
      exact ⟨rfl, rfl⟩

end ParseLoop

/-! ## Buffered readers -/

/-- The two required operations of a buffered reader.  A call may fail, and says nothing of
the reads behind. -/
structure BufRead (σ : Type) where
  fillBuf : σ → Except String (List UInt8) × σ
  consume : Nat → σ → σ

/-- Read one byte: `none` at the end of input. -/
def BufRead.readByte (r : BufRead σ) (s : σ) : Except String (Option UInt8) × σ :=
  match r.fillBuf s with
  | (.error e, s') => (.error e, s')
  | (.ok [], s') => (.ok none, s')
  | (.ok (b :: _), s') => (.ok (some b), r.consume 1 s')

/-- A reader over `remaining` bytes.  A call that does not fail returns an empty buffer only
at their end. -/
structure FailingBufRead (σ : Type) extends BufRead σ where
  remaining : σ → List UInt8
  fillBuf_spec : ∀ s, (∃ e s', fillBuf s = (.error e, s')) ∨
    ∃ buf s', fillBuf s = (.ok buf, s') ∧ buf <+: remaining s ∧
      (buf = [] → remaining s = []) ∧ remaining s' = remaining s ∧
      ∀ k ≤ buf.length, remaining (consume k s') = (remaining s).drop k

/-- A reader over `remaining` bytes none of whose calls fails.  How it cuts the bytes into
buffers is left open. -/
structure LawfulBufRead (σ : Type) extends FailingBufRead σ where
  never_fails : ∀ s e s', fillBuf s ≠ (.error e, s')

instance : CoeOut (LawfulBufRead σ) (FailingBufRead σ) := ⟨LawfulBufRead.toFailingBufRead⟩

variable (r : FailingBufRead σ)

/-- Some call reports this error. -/
def FailingBufRead.Fails (e : String) : Prop := ∃ s s', r.fillBuf s = (.error e, s')

/-- Reading one byte fails, finds the end, or takes the next byte.  All that is known of a
reader enters proofs through these cases. -/
theorem FailingBufRead.readByte_cases (s : σ) :
    (∃ e s', r.readByte s = (.error e, s') ∧ r.Fails e) ∨
    (∃ s', r.readByte s = (.ok none, s') ∧ r.remaining s = []) ∨
    ∃ b s', r.readByte s = (.ok (some b), s') ∧ r.remaining s = b :: r.remaining s' := by
  rcases r.fillBuf_spec s with ⟨e, s', hfill⟩ | ⟨buf, s', hfill, hfront, hend, -, hdrop⟩
  · exact .inl ⟨e, s', by simp only [BufRead.readByte, hfill], s, s', hfill⟩
  · cases buf with
    | nil => exact .inr (.inl ⟨s', by simp only [BufRead.readByte, hfill], hend rfl⟩)
    | cons b buf =>
        refine .inr (.inr ⟨b, r.consume 1 s', by simp only [BufRead.readByte, hfill], ?_⟩)
        obtain ⟨rest, hrest⟩ := hfront
        rw [hdrop 1 (by simp), ← hrest]
        rfl

theorem FailingBufRead.readByte_lt {s s' : σ} {b : UInt8}
    (h : r.readByte s = (.ok (some b), s')) :
    (r.remaining s').length < (r.remaining s).length := by
  rcases r.readByte_cases s with ⟨e, s₁, hread, -⟩ | ⟨s₁, hread, -⟩ | ⟨b₁, s₁, hread, hrest⟩
  · rw [hread] at h
    cases h
  · rw [hread] at h
    cases h
  · rw [hread] at h
    cases h
    simp [hrest]

/-! ## Decoding from a reader -/

/-- Run a decoder over a reader: the outcome, and the reader afterwards.  It consumes one byte
at a time. -/
def ItemDecoder.runOn (d : ItemDecoder α ε) (r : FailingBufRead σ) (q : d.State) (s : σ) :
    Except ε α × σ :=
  match d.act q with
  | .done item => (.ok item, s)
  | .fail e => (.error e, s)
  | .need short io next =>
      match _hread : r.readByte s with
      | (.error e, s') => (.error (io e), s')
      | (.ok none, s') => (.error short, s')
      | (.ok (some b), s') => d.runOn r (next b) s'
termination_by (r.remaining s).length
decreasing_by exact r.readByte_lt _hread

section RunOn

variable {q : d.State} {s s' : σ} {short : ε} {io : String → ε} {next : UInt8 → d.State}

theorem ItemDecoder.runOn_done {item : α} (hact : d.act q = .done item) :
    d.runOn r q s = (.ok item, s) := by
  rw [runOn, hact]

theorem ItemDecoder.runOn_fail {e : ε} (hact : d.act q = .fail e) :
    d.runOn r q s = (.error e, s) := by
  rw [runOn, hact]

/-- A failed read is the decoder's error for it. -/
theorem ItemDecoder.runOn_io {e : String} (hact : d.act q = .need short io next)
    (hread : r.readByte s = (.error e, s')) : d.runOn r q s = (.error (io e), s') := by
  rw [runOn, hact]
  simp only
  split
  · next heq =>
      rw [hread] at heq
      cases heq
      rfl
  · next heq =>
      rw [hread] at heq
      cases heq
  · next heq =>
      rw [hread] at heq
      cases heq

theorem ItemDecoder.runOn_short (hact : d.act q = .need short io next)
    (hread : r.readByte s = (.ok none, s')) : d.runOn r q s = (.error short, s') := by
  rw [runOn, hact]
  simp only
  split
  · next heq =>
      rw [hread] at heq
      cases heq
  · next heq =>
      rw [hread] at heq
      cases heq
      rfl
  · next heq =>
      rw [hread] at heq
      cases heq

theorem ItemDecoder.runOn_next {b : UInt8} (hact : d.act q = .need short io next)
    (hread : r.readByte s = (.ok (some b), s')) : d.runOn r q s = d.runOn r (next b) s' := by
  rw [runOn, hact]
  simp only
  split
  · next heq =>
      rw [hread] at heq
      cases heq
  · next heq =>
      rw [hread] at heq
      cases heq
  · next heq =>
      rw [hread] at heq
      cases heq
      rfl

end RunOn

/-- How a decoder words a failed read at some point: the text may depend on the state that it
was in. -/
def ItemDecoder.WordsRead (d : ItemDecoder α ε) (e : String) (worded : ε) : Prop :=
  ∃ q short io next, d.act q = .need short io next ∧ worded = io e

/-- Unless a read fails, a decoder delivers over a reader what it delivers over the
reader's remaining bytes, and leaves the bytes behind it. -/
theorem ItemDecoder.runOn_spec (q : d.State) (s : σ) :
    (∃ e worded s', d.runOn r q s = (.error worded, s') ∧ r.Fails e ∧ d.WordsRead e worded) ∨
    match d.runFrom q (r.remaining s) with
    | .ok (item, rest) => ∃ s', d.runOn r q s = (.ok item, s') ∧ r.remaining s' = rest
    | .error e => ∃ s', d.runOn r q s = (.error e, s') := by
  generalize hbytes : r.remaining s = bytes
  induction bytes generalizing q s with
  | nil =>
      rw [runFrom]
      cases hact : d.act q with
      | done item => exact .inr ⟨s, runOn_done r hact, hbytes⟩
      | fail e => exact .inr ⟨s, runOn_fail r hact⟩
      | need short io next =>
          rcases r.readByte_cases s with ⟨e, s', hread, hfails⟩ | ⟨s', hread, -⟩ | ⟨b, s', -, hrest⟩
          · exact .inl ⟨e, io e, s', runOn_io r hact hread, hfails, q, short, io, next, hact, rfl⟩
          · exact .inr ⟨s', runOn_short r hact hread⟩
          · rw [hbytes] at hrest
            cases hrest
  | cons b bytes ih =>
      rw [runFrom]
      cases hact : d.act q with
      | done item => exact .inr ⟨s, runOn_done r hact, hbytes⟩
      | fail e => exact .inr ⟨s, runOn_fail r hact⟩
      | need short io next =>
          rcases r.readByte_cases s with
            ⟨e, s', hread, hfails⟩ | ⟨s', -, hrest⟩ | ⟨b', s', hread, hrest⟩
          · exact .inl ⟨e, io e, s', runOn_io r hact hread, hfails, q, short, io, next, hact, rfl⟩
          · rw [hbytes] at hrest
            cases hrest
          · rw [hbytes] at hrest
            obtain ⟨rfl, htail⟩ := List.cons.inj hrest
            rw [runOn_next r hact hread]
            exact ih (next b) s' htail.symm

/-! ## Pulling one item a call -/

/-- An incremental reader: the underlying reader, whether the stream has ended,
and the number of items delivered. -/
structure ItemReader (σ : Type) where
  reader : σ
  done : Bool
  index : Nat

/-- A reader positioned at the start of a stream. -/
def ItemReader.new (reader : σ) : ItemReader σ := ⟨reader, false, 0⟩

/-- The next item: `none` at a clean end of input, an error for an item that is malformed or
truncated or cannot be read, after which the reader stops. -/
def ItemReader.nextItem (d : ItemDecoder α ε) (errText : ε → String) (convert : α → β)
    (r : FailingBufRead σ) (s : ItemReader σ) : Option (Except String β) × ItemReader σ :=
  if s.done then (none, s)
  else
    -- The end of input is looked for before decoding, so that a cut item is an error.
    match r.fillBuf s.reader with
    | (.ok [], reader) => (none, { s with reader, done := true })
    | (.error e, reader) =>
        (some (.error (itemError s.index e)), { s with reader, done := true })
    | (.ok (_ :: _), reader) =>
        match d.runOn r d.start reader with
        | (.ok item, reader) =>
            (some (.ok (convert item)), { s with reader, index := s.index + 1 })
        | (.error e, reader) =>
            (some (.error (itemError s.index (errText e))), { s with reader, done := true })

/-- Calling `next` until it returns `none` or an error: the items on the way, the
error if there was one, and the state in which the caller stops. -/
inductive Drains {τ φ : Type} (next : τ → Option (Except φ β) × τ) :
    τ → List β → Option φ → τ → Prop
  | finished {s s'} (h : next s = (none, s')) : Drains next s [] none s'
  | failed {s s' e} (h : next s = (some (.error e), s')) : Drains next s [] (some e) s'
  | item {s s₁ s' v vs e} (h : next s = (some (.ok v), s₁)) (rest : Drains next s₁ vs e s') :
      Drains next s (v :: vs) e s'

/-- Draining is deterministic: there is one result to compare with, and claims about every run
are claims about this one. -/
theorem Drains.unique {τ φ : Type} {next : τ → Option (Except φ β) × τ} {s s₁ s₂ : τ}
    {vs ws : List β} {e₁ e₂ : Option φ} (h₁ : Drains next s vs e₁ s₁)
    (h₂ : Drains next s ws e₂ s₂) : vs = ws ∧ e₁ = e₂ ∧ s₁ = s₂ := by
  induction h₁ generalizing ws with
  | finished h =>
      cases h₂ with
      | finished h' => rw [h] at h'; cases h'; exact ⟨rfl, rfl, rfl⟩
      | failed h' => rw [h] at h'; cases h'
      | item h' _ => rw [h] at h'; cases h'
  | failed h =>
      cases h₂ with
      | finished h' => rw [h] at h'; cases h'
      | failed h' => rw [h] at h'; cases h'; exact ⟨rfl, rfl, rfl⟩
      | item h' _ => rw [h] at h'; cases h'
  | item h _ ih =>
      cases h₂ with
      | finished h' => rw [h] at h'; cases h'
      | failed h' => rw [h] at h'; cases h'
      | item h' rest' =>
          rw [h] at h'
          cases h'
          obtain ⟨rfl, rfl, rfl⟩ := ih rest'
          exact ⟨rfl, rfl, rfl⟩

/-- The next item of a stream whose items and end are known. -/
def Parsed.nextItem (s : Parsed α) : Option (Except String α) × Parsed α :=
  match s.items with
  | item :: items => (some (.ok item), { s with items })
  | [] => (s.error.map .error, ⟨[], none⟩)

variable (d) (errText : ε → String) (convert : α → β) (stuck : String)

/-- The text in which an item reader reports a failed read: that of the read, or what the
decoder makes of it. -/
def ItemDecoder.ReportsRead (e text : String) : Prop :=
  text = e ∨ ∃ worded, d.WordsRead e worded ∧ text = errText worded

/-- A text in which an item reader reports a read that can fail. -/
def FailingBufRead.Reports (text : String) : Prop :=
  ∃ e, r.Fails e ∧ d.ReportsRead errText e text

/-- A stopped reader stays stopped and keeps returning nothing. -/
theorem ItemReader.nextItem_done {s : ItemReader σ} (h : s.done = true) :
    ItemReader.nextItem d errText convert r s = (none, s) := by
  simp [nextItem, h]

/-- A call on a reader that has not stopped reports a failed read, or finds the end, or does
what the decoder does on the remaining bytes. -/
theorem ItemReader.nextItem_cases {s : ItemReader σ} (hdone : s.done = false) :
    (∃ text s', nextItem d errText convert r s =
        (some (.error (itemError s.index text)), s') ∧ s'.done = true ∧
        r.Reports d errText text) ∨
    (r.remaining s.reader = [] ∧
      ∃ s', nextItem d errText convert r s = (none, s') ∧ s'.done = true) ∨
    r.remaining s.reader ≠ [] ∧
      match d.run (r.remaining s.reader) with
      | .ok (item, rest) => ∃ s', nextItem d errText convert r s =
          (some (.ok (convert item)), s') ∧ s'.done = false ∧ s'.index = s.index + 1 ∧
          r.remaining s'.reader = rest
      | .error e => ∃ s', nextItem d errText convert r s =
          (some (.error (itemError s.index (errText e))), s') ∧ s'.done = true := by
  rcases r.fillBuf_spec s.reader with ⟨e, reader, hfill⟩ | ⟨buf, reader, hfill, hfront, hend, hkeep, -⟩
  · exact .inl ⟨e, { s with reader, done := true }, by simp [nextItem, hdone, hfill], rfl, e,
      ⟨_, _, hfill⟩, .inl rfl⟩
  · cases buf with
    | nil =>
        exact .inr (.inl ⟨hend rfl, { s with reader, done := true },
          by simp [nextItem, hdone, hfill], rfl⟩)
    | cons b buf =>
        have hmore : r.remaining s.reader ≠ [] := by
          intro hnil
          rw [hnil, List.prefix_nil] at hfront
          cases hfront
        rcases ItemDecoder.runOn_spec (d := d) r d.start reader with
          ⟨e, worded, reader', hrun, hfails, hworded⟩ | hspec
        · exact .inl ⟨errText worded, { s with reader := reader', done := true },
            by simp [nextItem, hdone, hfill, hrun], rfl, e, hfails, .inr ⟨worded, hworded, rfl⟩⟩
        · refine .inr (.inr ⟨hmore, ?_⟩)
          rw [hkeep] at hspec
          unfold ItemDecoder.run
          cases hrun : d.runFrom d.start (r.remaining s.reader) with
          | error e =>
              rw [hrun] at hspec
              obtain ⟨reader', hover⟩ := hspec
              exact ⟨{ s with reader := reader', done := true },
                by simp [nextItem, hdone, hfill, hover], rfl⟩
          | ok result =>
              obtain ⟨item, rest⟩ := result
              rw [hrun] at hspec
              obtain ⟨reader', hover, hrest⟩ := hspec
              exact ⟨{ s with reader := reader', index := s.index + 1 },
                by simp [nextItem, hdone, hfill, hover], hdone, rfl, hrest⟩

/-- What draining a reader over some bytes can give: what the loop makes of the bytes, or a
part of its items and then the report of a failed read at the item it was at. -/
def FailingBufRead.Delivers (parsed : Parsed α) (before : Nat) (items : List α)
    (error : Option String) : Prop :=
  (items = parsed.items.drop before ∧ error = parsed.error) ∨
    (items <+: parsed.items.drop before ∧
      ∃ text, error = some (itemError (before + items.length) text) ∧ r.Reports d errText text)

/-- From any point of the stream on, draining the reader delivers what the loop still adds
to the items it has, or a part of that. -/
theorem drains_failing_from (items : List α) (bytes : List UInt8) (s : ItemReader σ)
    (hdone : s.done = false) (hindex : s.index = items.length)
    (hbytes : r.remaining s.reader = bytes) :
    ∃ vs e s', Drains (ItemReader.nextItem d errText convert r) s (vs.map convert) e s' ∧
      r.Delivers d errText (parseLoop d errText stuck items bytes) items.length vs e ∧
      s'.done = true := by
  induction bytes using d.run_induction generalizing items s with
  | nil =>
      rcases ItemReader.nextItem_cases d r errText convert hdone with
        ⟨text, s', hnext, hstop, hreports⟩ | ⟨-, s', hnext, hstop⟩ | ⟨hmore, -⟩
      · rw [hindex] at hnext
        exact ⟨[], _, s', .failed hnext, .inr ⟨List.nil_prefix, text, rfl, hreports⟩, hstop⟩
      · refine ⟨[], none, s', .finished hnext, .inl ?_, hstop⟩
        simp [parseLoop_nil]
      · exact absurd hbytes hmore
  | error bytes e hne hrun =>
      rcases ItemReader.nextItem_cases d r errText convert hdone with
        ⟨text, s', hnext, hstop, hreports⟩ | ⟨hnil, -⟩ | ⟨-, hmore⟩
      · rw [hindex] at hnext
        exact ⟨[], _, s', .failed hnext, .inr ⟨List.nil_prefix, text, rfl, hreports⟩, hstop⟩
      · exact absurd (hbytes.symm.trans hnil) hne
      · rw [hbytes, hrun] at hmore
        obtain ⟨s', hnext, hstop⟩ := hmore
        refine ⟨[], _, s', .failed hnext, .inl ?_, hstop⟩
        simp [parseLoop_error hne hrun, hindex]
  | ok bytes item rest hrun ih =>
      rcases ItemReader.nextItem_cases d r errText convert hdone with
        ⟨text, s', hnext, hstop, hreports⟩ | ⟨hnil, -⟩ | ⟨-, hmore⟩
      · rw [hindex] at hnext
        exact ⟨[], _, s', .failed hnext, .inr ⟨List.nil_prefix, text, rfl, hreports⟩, hstop⟩
      · have hlt := ItemDecoder.run_length_lt hrun
        rw [← hbytes, hnil] at hlt
        simp at hlt
      · rw [hbytes, hrun] at hmore
        obtain ⟨s₁, hnext, hdone₁, hindex₁, hrest⟩ := hmore
        obtain ⟨vs, e, s', hdrains, hdelivers, hstop⟩ :=
          ih (items ++ [item]) s₁ hdone₁ (by simp [hindex₁, hindex]) hrest
        refine ⟨item :: vs, e, s', .item hnext hdrains, ?_, hstop⟩
        rw [parseLoop_ok hrun]
        -- The item at hand stands in front of what the loop still adds.
        have hdrop : (parseLoop d errText stuck (items ++ [item]) rest).items.drop items.length =
            item :: (parseLoop d errText stuck (items ++ [item]) rest).items.drop
              (items.length + 1) := by
          rw [(@parseLoop_items _ _ d errText stuck (items ++ [item]) rest).1]
          simp
        unfold FailingBufRead.Delivers at hdelivers ⊢
        rw [List.length_append, List.length_singleton] at hdelivers
        rw [hdrop]
        rcases hdelivers with ⟨rfl, herror⟩ | ⟨hfront, text, herror, hreports⟩
        · exact .inl ⟨rfl, herror⟩
        · refine .inr ⟨List.cons_prefix_cons.2 ⟨rfl, hfront⟩, text, ?_, hreports⟩
          rw [herror, List.length_cons]
          congr 2
          omega

/-- Draining an item reader gives the items and the error of the loop over the same bytes,
or a prefix of the items and then the report of a failed read, which names the item that was
being read.  Afterwards the reader returns nothing more. -/
theorem drains_failing (s : σ) :
    ∃ vs e s', Drains (ItemReader.nextItem d errText convert r) (ItemReader.new s)
        (vs.map convert) e s' ∧
      r.Delivers d errText (parseLoop d errText stuck [] (r.remaining s)) 0 vs e ∧
      ItemReader.nextItem d errText convert r s' = (none, s') := by
  obtain ⟨vs, e, s', hdrains, hdelivers, hstop⟩ := drains_failing_from d r errText convert stuck []
    (r.remaining s) (ItemReader.new s) rfl rfl rfl
  exact ⟨vs, e, s', hdrains, hdelivers, ItemReader.nextItem_done d r errText convert hstop⟩

/-- Draining an incremental reader none of whose reads fails gives the items and the error of
the loop over the same bytes, and leaves a reader that returns nothing more. -/
theorem drains_parseLoop (r : LawfulBufRead σ) (s : σ) :
    ∃ s', Drains (ItemReader.nextItem d errText convert r) (ItemReader.new s)
        ((parseLoop d errText stuck [] (r.remaining s)).items.map convert)
        (parseLoop d errText stuck [] (r.remaining s)).error s' ∧
      ItemReader.nextItem d errText convert r s' = (none, s') := by
  obtain ⟨vs, e, s', hdrains, hdelivers, hstop⟩ := drains_failing d r.toFailingBufRead errText
    convert stuck s
  rcases hdelivers with ⟨rfl, rfl⟩ | ⟨-, text, -, e', ⟨s₁, s₂, hfails⟩, -⟩
  · exact ⟨s', hdrains, hstop⟩
  · exact absurd hfails (r.never_fails _ _ _)

end ItemStream
