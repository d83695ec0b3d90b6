import VgiCbor.Lib.ItemStream
import VgiCbor.Lib.Traverse

/-!
# Continuing and cutting a stream of items

A decoded item owns the bytes it used up: it is decoded from these whatever stands
behind them, and from no proper prefix of them (`run_split`).  So a stream that parses
cleanly can be continued with any other one, and cutting it off keeps the items that end
before the cut.
-/

namespace ItemStream

variable {α ε : Type} {d : ItemDecoder α ε} {errText : ε → String} {stuck : String}

/-! ## The bytes of one item -/

/-- The bytes a decoder has used up decide its outcome, and no fewer bytes do. -/
theorem ItemDecoder.runFrom_split {q : d.State} {bytes rest : List UInt8} {item : α}
    (h : d.runFrom q bytes = .ok (item, rest)) :
    ∃ own, bytes = own ++ rest ∧ (∀ more, d.runFrom q (own ++ more) = .ok (item, more)) ∧
      ∀ k < own.length, ∃ e, d.runFrom q (own.take k) = .error e := by
  induction bytes generalizing q with
  | nil =>
      rw [runFrom] at h
      cases hact : d.act q with
      | done first =>
          rw [hact] at h
          cases h
          exact ⟨[], rfl, fun more => by cases more <;> simp [runFrom, hact], by simp⟩
      | fail e => simp [hact] at h
      | need short io next => simp [hact] at h
  | cons b bytes ih =>
      rw [runFrom] at h
      cases hact : d.act q with
      | done first =>
          rw [hact] at h
          cases h
          exact ⟨[], rfl, fun more => by cases more <;> simp [runFrom, hact], by simp⟩
      | fail e => simp [hact] at h
      | need short io next =>
          rw [hact] at h
          obtain ⟨own, hbytes, hmore, hshort⟩ := ih h
          refine ⟨b :: own, by rw [hbytes, List.cons_append], fun more => ?_, fun k hk => ?_⟩
          · rw [List.cons_append, runFrom, hact]
            exact hmore more
          · cases k with
            | zero => exact ⟨short, by rw [List.take_zero, runFrom, hact]⟩
            | succ k =>
                rw [List.take_succ_cons, runFrom, hact]
                exact hshort k (by simpa using hk)

/-- A decoded item owns a non-empty piece of the input: it is decoded from that piece
whatever follows, and from no proper prefix of it. -/
theorem ItemDecoder.run_split {bytes rest : List UInt8} {item : α}
    (h : d.run bytes = .ok (item, rest)) :
    ∃ own, bytes = own ++ rest ∧ 0 < own.length ∧
      (∀ more, d.run (own ++ more) = .ok (item, more)) ∧
      ∀ k < own.length, ∃ e, d.run (own.take k) = .error e := by
  obtain ⟨own, hbytes, hmore, hshort⟩ := runFrom_split h
  refine ⟨own, hbytes, ?_, hmore, hshort⟩
  have hlt := run_length_lt h
  rw [hbytes, List.length_append] at hlt
  omega

/-- What follows an item does not change how it is decoded. -/
theorem ItemDecoder.run_append {bytes rest : List UInt8} {item : α}
    (h : d.run bytes = .ok (item, rest)) (more : List UInt8) :
    d.run (bytes ++ more) = .ok (item, rest ++ more) := by
  obtain ⟨own, rfl, -, hmore, -⟩ := run_split h
  rw [List.append_assoc]
  exact hmore _

/-! ## Continuing a stream -/

/-- Behind a stream that parses cleanly the loop goes on with what follows. -/
theorem parseLoop_append {front : List UInt8} (items : List α)
    (hclean : (parseLoop d errText stuck items front).error = none) (back : List UInt8) :
    parseLoop d errText stuck items (front ++ back) =
      parseLoop d errText stuck (parseLoop d errText stuck items front).items back := by
  induction front using d.run_induction generalizing items with
  | nil => rw [parseLoop_nil, List.nil_append]
  | error front e hne hrun => simp [parseLoop_error hne hrun] at hclean
  | ok front item rest hrun ih =>
      rw [parseLoop_ok hrun] at hclean ⊢
      rw [parseLoop_ok (ItemDecoder.run_append hrun back)]
      exact ih _ hclean

/-- Pieces that are one item each make a clean stream. -/
theorem parseLoop_flatten {pieces : List (List UInt8)} {vs : List α}
    (h : List.Forall₂ (fun piece v => d.run piece = .ok (v, [])) pieces vs) (items : List α) :
    parseLoop d errText stuck items pieces.flatten = ⟨items ++ vs, none⟩ := by
  induction h generalizing items with
  | nil => rw [List.flatten_nil, parseLoop_nil, List.append_nil]
  | @cons piece v pieces vs hrun _ ih =>
      have hfirst := ItemDecoder.run_append hrun pieces.flatten
      rw [List.nil_append] at hfirst
      rw [List.flatten_cons, parseLoop_ok hfirst, ih, List.append_assoc, List.singleton_append]

/-! ## Cutting a stream -/

/-- An item of a stream, with the offset of its first byte and the one behind its last. -/
structure Span (α : Type) where
  start : Nat
  stop : Nat
  item : α

/-- The items of a stream whose first byte has the given offset. -/
def spansFrom (d : ItemDecoder α ε) (offset : Nat) (bytes : List UInt8) : List (Span α) :=
  match _hrun : d.run bytes with
  | .ok (item, rest) =>
      let stop := offset + (bytes.length - rest.length)
      ⟨offset, stop, item⟩ :: spansFrom d stop rest
  | .error _ => []
termination_by bytes.length
decreasing_by exact ItemDecoder.run_length_lt _hrun

/-- The items of a stream and where they stand. -/
def spans (d : ItemDecoder α ε) (bytes : List UInt8) : List (Span α) := spansFrom d 0 bytes

theorem spansFrom_ok {bytes rest : List UInt8} {item : α} (h : d.run bytes = .ok (item, rest))
    (offset : Nat) :
    spansFrom d offset bytes = ⟨offset, offset + (bytes.length - rest.length), item⟩ ::
      spansFrom d (offset + (bytes.length - rest.length)) rest := by
  rw [spansFrom]
  split
  · next item' rest' hrun =>
      rw [h] at hrun
      cases hrun
      rfl
  · next e hrun =>
      rw [h] at hrun
      cases hrun

theorem spansFrom_error {bytes : List UInt8} {e : ε} (h : d.run bytes = .error e)
    (offset : Nat) : spansFrom d offset bytes = [] := by
  rw [spansFrom]
  split
  · next item' rest' hrun =>
      rw [h] at hrun
      cases hrun
  · rfl

/-- Spans are non-empty and stand behind the offset they are counted from. -/
theorem spansFrom_bounds (offset : Nat) (bytes : List UInt8) :
    ∀ s ∈ spansFrom d offset bytes, offset ≤ s.start ∧ s.start < s.stop := by
  induction bytes using d.run_induction generalizing offset with
  | nil =>
      obtain ⟨e, hrun⟩ := d.run_nil
      simp [spansFrom_error hrun]
  | error bytes e hne hrun => simp [spansFrom_error hrun]
  | ok bytes item rest hrun ih =>
      have hlt := ItemDecoder.run_length_lt hrun
      rw [spansFrom_ok hrun, List.forall_mem_cons]
      refine ⟨⟨Nat.le_refl _, by dsimp only; omega⟩, fun s hs => ?_⟩
      obtain ⟨hstart, hstop⟩ := ih _ s hs
      exact ⟨by omega, hstop⟩

/-- The bytes of a span are its item. -/
theorem spansFrom_run (offset : Nat) (bytes : List UInt8) :
    ∀ s ∈ spansFrom d offset bytes,
      d.run ((bytes.drop (s.start - offset)).take (s.stop - s.start)) = .ok (s.item, []) := by
  induction bytes using d.run_induction generalizing offset with
  | nil =>
      obtain ⟨e, hrun⟩ := d.run_nil
      simp [spansFrom_error hrun]
  | error bytes e hne hrun => simp [spansFrom_error hrun]
  | ok bytes item rest hrun ih =>
      obtain ⟨own, rfl, -, hmore, -⟩ := ItemDecoder.run_split hrun
      have hown : (own ++ rest).length - rest.length = own.length := by simp
      rw [spansFrom_ok hrun, hown, List.forall_mem_cons]
      constructor
      · have hfirst := hmore []
        rw [List.append_nil] at hfirst
        simpa using hfirst
      · intro s hs
        have hstart := (spansFrom_bounds _ _ s hs).1
        have hdrop : (own ++ rest).drop (s.start - offset) =
            rest.drop (s.start - (offset + own.length)) := by
          rw [List.drop_append, List.drop_eq_nil_of_le (by omega), List.nil_append]
          congr 1
          omega
        rw [hdrop]
        exact ih _ s hs

/-- The loop returns the items of the spans. -/
theorem parseLoop_spansFrom (items : List α) (offset : Nat) (bytes : List UInt8) :
    (parseLoop d errText stuck items bytes).items =
      items ++ (spansFrom d offset bytes).map Span.item := by
  induction bytes using d.run_induction generalizing items offset with
  | nil =>
      obtain ⟨e, hrun⟩ := d.run_nil
      simp [parseLoop_nil, spansFrom_error hrun]
  | error bytes e hne hrun => simp [parseLoop_error hne hrun, spansFrom_error hrun]
  | ok bytes item rest hrun ih =>
      rw [parseLoop_ok hrun, ih, spansFrom_ok hrun, List.map_cons, List.append_assoc,
        List.singleton_append]

/-- The items of a stream that end before the cut, or at it. -/
def endedBefore (cut : Nat) (spans : List (Span α)) : List (Span α) :=
  spans.filter fun s => decide (s.stop ≤ cut)

/-- The cut falls strictly inside an item. -/
def CutsItem (cut : Nat) (spans : List (Span α)) : Prop :=
  ∃ s ∈ spans, s.start < cut ∧ cut < s.stop

/-- Before the first byte nothing has ended and nothing is cut. -/
theorem cut_before {offset cut : Nat} {ss : List (Span α)}
    (hbounds : ∀ s ∈ ss, offset ≤ s.start ∧ s.start < s.stop) (hcut : cut ≤ offset) :
    endedBefore cut ss = [] ∧ ¬ CutsItem cut ss := by
  constructor
  · rw [endedBefore, List.filter_eq_nil_iff]
    intro s hs
    have hspan := hbounds s hs
    simp only [decide_eq_true_eq]
    omega
  · rintro ⟨s, hs, hstart, -⟩
    have hspan := hbounds s hs
    omega

/-- Cutting a clean stream: the loop returns the items that end before the cut, and it
reports an error exactly when the cut falls inside an item. -/
theorem parseLoop_take_from (items : List α) (offset : Nat) (bytes : List UInt8)
    (hclean : (parseLoop d errText stuck items bytes).error = none) (k : Nat) :
    (parseLoop d errText stuck items (bytes.take k)).items =
        items ++ (endedBefore (offset + k) (spansFrom d offset bytes)).map Span.item ∧
      ((parseLoop d errText stuck items (bytes.take k)).error ≠ none ↔
        CutsItem (offset + k) (spansFrom d offset bytes)) := by
  induction bytes using d.run_induction generalizing items offset k with
  | nil =>
      obtain ⟨e, hrun⟩ := d.run_nil
      simp [parseLoop_nil, spansFrom_error hrun, endedBefore, CutsItem]
  | error bytes e hne hrun => simp [parseLoop_error hne hrun] at hclean
  | ok bytes item rest hrun ih =>
      obtain ⟨own, rfl, hpos, hmore, hshort⟩ := ItemDecoder.run_split hrun
      have hown : (own ++ rest).length - rest.length = own.length := by simp
      have hbehind := spansFrom_bounds (d := d) (offset + own.length) rest
      rw [parseLoop_ok hrun] at hclean
      rw [spansFrom_ok hrun, hown]
      by_cases hk : own.length ≤ k
      · -- The first item is whole, the cut falls behind it.
        have htake : (own ++ rest).take k = own ++ rest.take (k - own.length) := by
          rw [List.take_append, List.take_of_length_le hk]
        have hfirst := hmore (rest.take (k - own.length))
        obtain ⟨hitems, herror⟩ :=
          ih (items ++ [item]) (offset + own.length) hclean (k - own.length)
        have hoffset : offset + own.length + (k - own.length) = offset + k := by omega
        rw [hoffset] at hitems herror
        rw [htake, parseLoop_ok hfirst, hitems, herror]
        constructor
        · rw [endedBefore, endedBefore, List.filter_cons_of_pos (by simpa using hk),
            List.map_cons, List.append_assoc, List.singleton_append]
        · constructor
          · rintro ⟨s, hs, hcut⟩
            exact ⟨s, List.mem_cons_of_mem _ hs, hcut⟩
          · rintro ⟨s, hs, hcut⟩
            rcases List.mem_cons.1 hs with rfl | hs
            · dsimp only at hcut
              omega
            · exact ⟨s, hs, hcut⟩
      · -- The cut falls into the first item, or before it.
        have htake : (own ++ rest).take k = own.take k :=
          List.take_append_of_le_length (by omega)
        obtain ⟨hnone, huncut⟩ := cut_before hbehind (show offset + k ≤ offset + own.length by omega)
        have hended : endedBefore (offset + k)
            (⟨offset, offset + own.length, item⟩ ::
              spansFrom d (offset + own.length) rest) = [] := by
          rw [endedBefore, List.filter_cons_of_neg (by simpa using hk)]
          exact hnone
        rw [htake, hended, List.map_nil, List.append_nil]
        by_cases hzero : k = 0
        · rw [hzero, List.take_zero, parseLoop_nil]
          refine ⟨rfl, fun h => absurd rfl h, ?_⟩
          rintro ⟨s, hs, hstart, hstop⟩
          rcases List.mem_cons.1 hs with rfl | hs
          · dsimp only at hstart
            omega
          · exact absurd ⟨s, hs, hzero ▸ hstart, hzero ▸ hstop⟩ huncut
        · obtain ⟨e, hcut⟩ := hshort k (by omega)
          have hne : own.take k ≠ [] := by
            intro hnil
            rw [List.take_eq_nil_iff] at hnil
            rcases hnil with hnil | hnil
            · exact hzero hnil
            · rw [hnil] at hpos
              exact absurd hpos (by simp)
          rw [parseLoop_error hne hcut]
          refine ⟨rfl, fun _ => ⟨_, List.mem_cons_self, ?_, ?_⟩, fun _ => by simp⟩
          · dsimp only
            omega
          · dsimp only
            omega

/-! ## All three at once -/

/-- Whole-stream parsing that respects the pieces a stream is put together from. -/
structure Splices (d : ItemDecoder α ε) (parse : List UInt8 → Parsed α)
    (encode : α → Except String (List UInt8)) (within : α → Prop) : Prop where
  /-- The encodings of a list of items, one behind the other, are that list. -/
  concat : ∀ vs pieces, (∀ v ∈ vs, within v) → vs.mapM encode = .ok pieces →
    parse pieces.flatten = ⟨vs, none⟩
  /-- A clean stream is continued by any other one. -/
  append : ∀ front back, (parse front).error = none →
    (parse (front ++ back)).items = (parse front).items ++ (parse back).items ∧
      ((parse (front ++ back)).error ≠ none ↔ (parse back).error ≠ none)
  /-- The items of a clean stream, each with the bytes it was decoded from. -/
  items : ∀ bytes, (parse bytes).error = none →
    (parse bytes).items = (spans d bytes).map Span.item ∧
      ∀ s ∈ spans d bytes, d.run ((bytes.drop s.start).take (s.stop - s.start)) =
        .ok (s.item, [])
  /-- A cut keeps what ends before it, and is an error inside an item only. -/
  cut : ∀ bytes k, (parse bytes).error = none →
    (parse (bytes.take k)).items = (endedBefore k (spans d bytes)).map Span.item ∧
      ((parse (bytes.take k)).error ≠ none ↔ CutsItem k (spans d bytes))

/-- The loop respects the pieces, when what the encoder writes is decoded back. -/
theorem parseLoop_splices {encode : α → Except String (List UInt8)} {within : α → Prop}
    (hdecode : ∀ v bytes, encode v = .ok bytes → within v → d.run bytes = .ok (v, [])) :
    Splices d (parseLoop d errText stuck []) encode within where
  concat vs pieces hwithin hencode := by
    have hpieces : List.Forall₂ (fun piece v => d.run piece = .ok (v, [])) pieces vs := by
      have hboth := (List.forall₂_and_left vs pieces).2
        ⟨hwithin, Traverse.forall₂_of_mapM_ok hencode⟩
      exact (hboth.imp fun v piece h => hdecode v piece h.2 h.1).flip
    rw [parseLoop_flatten hpieces, List.nil_append]
  append front back hclean := by
    obtain ⟨hitems, herror⟩ := @parseLoop_items _ _ d errText stuck
      (parseLoop d errText stuck [] front).items back
    rw [parseLoop_append [] hclean]
    refine ⟨hitems, ?_⟩
    rw [← Option.isSome_iff_ne_none, ← Option.isSome_iff_ne_none, herror]
  items bytes hclean := by
    constructor
    · exact parseLoop_spansFrom [] 0 bytes
    · exact spansFrom_run 0 bytes
  cut bytes k hclean := by
    have hcut := parseLoop_take_from [] 0 bytes hclean k
    rwa [Nat.zero_add, List.nil_append] at hcut

end ItemStream
