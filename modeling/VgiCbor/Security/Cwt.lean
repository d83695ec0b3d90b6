import VgiCbor.Security.Cose

/-!
# CWT claim sets

`claimsValue` looks for the claims map of a token: it takes off the CWT tag, and where it
finds a COSE message it parses the payload and looks there.  Every parse is limited in
depth, but each payload is parsed anew: the calls are bounded on a set of inputs exactly
if COSE messages nest to a bounded depth in payloads there (`unwrapping_bounded_iff`).
-/

namespace VgiCbor.Cwt

open Cose

variable (platform : Platform) (codec : CborCodec)

/-- Decode a COSE message, parse its payload and look there. -/
def payloadClaims (extract : Value → Option (Except DecodeError Value)) (message : Value) :
    Option (Except DecodeError Value) :=
  match decodeValue platform codec message none with
  | .error e => some (.error e)
  | .ok decoded =>
      match decoded.payload with
      | none => some (.error (.structural "COSE message has no payload"))
      | some payload =>
          match parse codec payload with
          | .error e => some (.error e)
          | .ok inner => extract inner

/-- Look for the claims map, cut off after so many calls.  The recursion of the source has no
such bound, and a cut-off is no result. -/
def extractClaims : Nat → Value → Option (Except DecodeError Value)
  | 0, _ => none
  | calls + 1, value =>
      match stripTransparent value with
      | .map entries => some (.ok (.map entries))
      | .tag t inner =>
          if t = 61 then extractClaims calls inner
          else payloadClaims platform codec (extractClaims calls) (.tag t inner)
      | .array items => payloadClaims platform codec (extractClaims calls) (.array items)
      | _ => some (.error (.structural "input is not a CWT claim set or COSE message"))

/-- The claims map inside the bytes, cut off after so many calls. -/
def claimsValue (calls : Nat) (bytes : Bytes) : Option (Except DecodeError Value) :=
  match parse codec bytes with
  | .error e => some (.error e)
  | .ok value => extractClaims platform codec calls value

/-- The chain of calls for the bytes ends within so many calls, with a result or with an
error. -/
def EndsWithin (calls : Nat) (bytes : Bytes) : Prop :=
  (claimsValue platform codec calls bytes).isSome

/-! ## Messages inside messages -/

/-- A value without its envelope of transparent tags and CWT tags. -/
def openEnvelope : Value → Value
  | .tag t inner => if t = 55799 ∨ t = 61 then openEnvelope inner else .tag t inner
  | v => v

/-- The item in the payload of a COSE message. -/
def payloadItem (message : Value) : Option Value :=
  match decodeValue platform codec message none with
  | .error _ => none
  | .ok decoded => decoded.payload.bind fun payload => (parse codec payload).toOption

/-- The item in the payload of the COSE message in an envelope. -/
def nestedItem (value : Value) : Option Value :=
  match openEnvelope value with
  | .map _ => none
  | message => payloadItem platform codec message

/-- COSE messages are nested in the payloads of others at most so deep.  Levels inside one
message do not count here. -/
def NestsAtMost : Nat → Value → Prop
  | 0, value => nestedItem platform codec value = none
  | n + 1, value => ∀ inner, nestedItem platform codec value = some inner → NestsAtMost n inner

variable {platform codec}

theorem NestsAtMost.succ {n : Nat} {v : Value} (h : NestsAtMost platform codec n v) :
    NestsAtMost platform codec (n + 1) v := by
  induction n generalizing v with
  | zero =>
      intro inner hinner
      rw [NestsAtMost] at h
      cases h.symm.trans hinner
  | succ n ih => exact fun inner hinner => ih (h inner hinner)

theorem NestsAtMost.mono {n m : Nat} (hle : n ≤ m) {v : Value}
    (h : NestsAtMost platform codec n v) : NestsAtMost platform codec m v := by
  induction hle with
  | refl => exact h
  | step _ ih => exact ih.succ

/-- The item in a payload was parsed. -/
theorem nestedItem_depth (hlimit : codec.Limited) {v inner : Value}
    (h : nestedItem platform codec v = some inner) : inner.depth ≤ MAX_NESTING := by
  have hmessage {message : Value} (hitem : payloadItem platform codec message = some inner) :
      inner.depth ≤ MAX_NESTING := by
    unfold payloadItem at hitem
    split at hitem
    · cases hitem
    · obtain ⟨payload, -, hparsed⟩ := Option.bind_eq_some_iff.1 hitem
      cases hparse : parse codec payload with
      | error e =>
          rw [hparse] at hparsed
          cases hparsed
      | ok item =>
          rw [hparse] at hparsed
          cases hparsed
          exact hlimit.parse_depth hparse
  unfold nestedItem at h
  split at h
  · cases h
  · exact hmessage h

/-! ## One parsed item -/

/-- Where the calls for one parsed item go: with `used` of them the chain has ended, or it
goes on in the item of the payload. -/
def GoesTo (platform : Platform) (codec : CborCodec) (used : Nat) (v : Value) : Prop :=
  (∀ calls < used, extractClaims platform codec calls v = none) ∧
    match nestedItem platform codec v with
    | none => ∃ result, ∀ calls, extractClaims platform codec (used + calls) v = some result
    | some inner => ∀ calls, extractClaims platform codec (used + calls) v =
        extractClaims platform codec calls inner

theorem extractClaims_transparent (calls : Nat) (inner : Value) :
    extractClaims platform codec calls (.tag 55799 inner) =
      extractClaims platform codec calls inner := by
  cases calls with
  | zero => rfl
  | succ calls =>
      have hstrip : stripTransparent (.tag 55799 inner) = stripTransparent inner := by
        rw [stripTransparent, if_pos rfl]
      simp only [extractClaims, hstrip]

theorem extractClaims_cwt (calls : Nat) (inner : Value) :
    extractClaims platform codec (calls + 1) (.tag 61 inner) =
      extractClaims platform codec calls inner := by
  have hstrip : stripTransparent (.tag 61 inner) = .tag 61 inner := by
    rw [stripTransparent, if_neg (by decide)]
  simp only [extractClaims, hstrip, if_true]

/-- A COSE message either has no item to go on in, or it is the one in the payload. -/
theorem payloadClaims_spec (message : Value) :
    match payloadItem platform codec message with
    | none => ∃ result, ∀ extract, payloadClaims platform codec extract message = some result
    | some inner => ∀ extract, payloadClaims platform codec extract message = extract inner := by
  unfold payloadItem payloadClaims
  cases decodeValue platform codec message none with
  | error e => exact ⟨.error e, fun _ => rfl⟩
  | ok decoded =>
      cases hpayload : decoded.payload with
      | none => simp [hpayload]
      | some payload =>
          cases hparse : parse codec payload with
          | error e => simp [hpayload, hparse, Except.toOption]
          | ok inner => simp [hpayload, hparse, Except.toOption]

/-- A message without an envelope takes one call. -/
theorem goesTo_message {v : Value}
    (hitem : nestedItem platform codec v = payloadItem platform codec v)
    (hcall : ∀ calls, extractClaims platform codec (calls + 1) v =
      payloadClaims platform codec (extractClaims platform codec calls) v) :
    GoesTo platform codec 1 v := by
  refine ⟨fun calls hcalls => ?_, ?_⟩
  · obtain rfl : calls = 0 := by omega
    rfl
  · have hspec := @payloadClaims_spec platform codec v
    rw [hitem]
    simp only [Nat.add_comm 1, hcall]
    cases hinner : payloadItem platform codec v with
    | none =>
        simp only [hinner] at hspec
        obtain ⟨result, hresult⟩ := hspec
        exact ⟨result, fun calls => hresult _⟩
    | some inner =>
        simp only [hinner] at hspec
        exact fun calls => hspec _

/-- The chain ends at what is neither a message nor an envelope. -/
theorem goesTo_end {v : Value} {result : Except DecodeError Value}
    (hitem : nestedItem platform codec v = none)
    (hcall : ∀ calls, extractClaims platform codec (calls + 1) v = some result) :
    GoesTo platform codec 1 v := by
  refine ⟨fun calls hcalls => ?_, ?_⟩
  · obtain rfl : calls = 0 := by omega
    rfl
  · rw [hitem]
    exact ⟨result, fun calls => Nat.add_comm 1 calls ▸ hcall calls⟩

/-- The calls for one parsed item are at most one more than its depth, and its depth is
bounded. -/
theorem exists_goesTo (v : Value) :
    ∃ used, 1 ≤ used ∧ used ≤ v.depth + 1 ∧ GoesTo platform codec used v := by
  induction v with
  | tag t inner ih =>
      obtain ⟨used, hpos, hle, hnone, hgoes⟩ := ih
      by_cases htransparent : t = 55799
      · subst htransparent
        have hitem : nestedItem platform codec (.tag 55799 inner) =
            nestedItem platform codec inner := by
          rw [nestedItem, openEnvelope, if_pos (.inl rfl), ← nestedItem]
        -- The self-describe tag costs no call.
        refine ⟨used, hpos, by rw [Value.depth]; omega, ?_⟩
        simp only [GoesTo, extractClaims_transparent, hitem]
        exact ⟨hnone, hgoes⟩
      · by_cases hcwt : t = 61
        · subst hcwt
          have hitem : nestedItem platform codec (.tag 61 inner) =
              nestedItem platform codec inner := by
            rw [nestedItem, openEnvelope, if_pos (.inr rfl), ← nestedItem]
          -- The CWT tag costs one call and one level of depth.
          refine ⟨used + 1, by omega, by rw [Value.depth]; omega, ?_, ?_⟩
          · intro calls hcalls
            cases calls with
            | zero => rfl
            | succ calls =>
                rw [extractClaims_cwt]
                exact hnone calls (by omega)
          · simp only [Nat.add_right_comm used 1, extractClaims_cwt, hitem]
            exact hgoes
        · refine ⟨1, le_rfl, by omega, goesTo_message ?_ fun calls => ?_⟩
          · rw [nestedItem, openEnvelope, if_neg (by tauto)]
          · rw [extractClaims, stripTransparent, if_neg htransparent]
            exact if_neg hcwt
  | array items => exact ⟨1, le_rfl, by omega, goesTo_message rfl fun _ => rfl⟩
  | _ => exact ⟨1, le_rfl, by omega, goesTo_end rfl fun _ => rfl⟩

/-! ## Whole chains -/

/-- A chain that has ended is the same with more calls, so its result does not depend on the
cut-off. -/
theorem extractClaims_mono {calls more : Nat} (hle : calls ≤ more) {v : Value}
    {result : Except DecodeError Value}
    (h : extractClaims platform codec calls v = some result) :
    extractClaims platform codec more v = some result := by
  induction more using Nat.strong_induction_on generalizing calls v with
  | _ more ih =>
      obtain ⟨used, hpos, -, hnone, hgoes⟩ := @exists_goesTo platform codec v
      have hused : used ≤ calls := by
        by_contra hlt
        rw [hnone calls (by omega)] at h
        cases h
      obtain ⟨left, rfl⟩ := Nat.exists_eq_add_of_le hused
      obtain ⟨leftMore, rfl⟩ := Nat.exists_eq_add_of_le (hused.trans hle)
      cases hitem : nestedItem platform codec v with
      | none =>
          simp only [hitem] at hgoes
          obtain ⟨result', hresult⟩ := hgoes
          rw [hresult] at h ⊢
          exact h
      | some inner =>
          simp only [hitem] at hgoes
          rw [hgoes] at h ⊢
          exact ih leftMore (by omega) (by omega) h

/-- A chain of so many calls goes through no more messages. -/
theorem nestsAtMost_of_extractClaims {calls : Nat} {v : Value}
    (h : (extractClaims platform codec calls v).isSome) :
    NestsAtMost platform codec calls v := by
  induction calls using Nat.strong_induction_on generalizing v with
  | _ calls ih =>
      obtain ⟨used, hpos, -, hnone, hgoes⟩ := @exists_goesTo platform codec v
      have hused : used ≤ calls := by
        by_contra hlt
        rw [hnone calls (by omega)] at h
        cases h
      obtain ⟨left, rfl⟩ := Nat.exists_eq_add_of_le hused
      cases hitem : nestedItem platform codec v with
      | none => exact (show NestsAtMost platform codec 0 v from hitem).mono (Nat.zero_le _)
      | some inner =>
          simp only [hitem] at hgoes
          rw [hgoes] at h
          have hinner := ih left (by omega) h
          refine NestsAtMost.mono (show left + 1 ≤ used + left by omega) fun inner' hinner' => ?_
          obtain rfl : inner = inner' := Option.some.inj (hitem.symm.trans hinner')
          exact hinner

/-- Every item takes at most one call more than the nesting limit, and so does each of the
items in payloads. -/
theorem extractClaims_of_nestsAtMost (hlimit : codec.Limited) {n : Nat} {v : Value}
    (hdepth : v.depth ≤ MAX_NESTING) (h : NestsAtMost platform codec n v) :
    (extractClaims platform codec ((MAX_NESTING + 1) * (n + 1)) v).isSome := by
  induction n generalizing v with
  | zero =>
      obtain ⟨used, -, hle, -, hgoes⟩ := @exists_goesTo platform codec v
      simp only [show nestedItem platform codec v = none from h] at hgoes
      obtain ⟨result, hresult⟩ := hgoes
      have hcalls := hresult ((MAX_NESTING + 1) * (0 + 1) - used)
      rw [Nat.add_sub_cancel' (by omega)] at hcalls
      rw [hcalls, Option.isSome_some]
  | succ n ih =>
      obtain ⟨used, -, hle, -, hgoes⟩ := @exists_goesTo platform codec v
      have hsplit : (MAX_NESTING + 1) * (n + 1 + 1) =
          used + ((MAX_NESTING + 1) * (n + 1) + (MAX_NESTING + 1 - used)) := by
        rw [Nat.mul_succ (MAX_NESTING + 1) (n + 1)]
        omega
      rw [hsplit]
      cases hitem : nestedItem platform codec v with
      | none =>
          simp only [hitem] at hgoes
          obtain ⟨result, hresult⟩ := hgoes
          rw [hresult, Option.isSome_some]
      | some inner =>
          simp only [hitem] at hgoes
          rw [hgoes]
          -- The item in the payload was parsed under the limit again.
          have hinner : inner.depth ≤ MAX_NESTING := nestedItem_depth hlimit hitem
          obtain ⟨result, hresult⟩ := Option.isSome_iff_exists.1 (ih hinner (h inner hitem))
          rw [extractClaims_mono (Nat.le_add_right _ _) hresult, Option.isSome_some]

/-- On a set of inputs the chains of calls have a common bound exactly if COSE messages are
nested in payloads to a bounded depth there. -/
theorem unwrapping_bounded_iff (platform : Platform) (hlimit : codec.Limited)
    (inputs : Set Bytes) :
    (∃ calls, ∀ bytes ∈ inputs, EndsWithin platform codec calls bytes) ↔
      ∃ n, ∀ bytes ∈ inputs, ∀ v, parse codec bytes = .ok v → NestsAtMost platform codec n v := by
  constructor
  · rintro ⟨calls, hends⟩
    refine ⟨calls, fun bytes hbytes v hparse => nestsAtMost_of_extractClaims ?_⟩
    have hchain := hends bytes hbytes
    rwa [EndsWithin, claimsValue, hparse] at hchain
  · rintro ⟨n, hnests⟩
    refine ⟨(MAX_NESTING + 1) * (n + 1), fun bytes hbytes => ?_⟩
    rw [EndsWithin, claimsValue]
    cases hparse : parse codec bytes with
    | error e => rfl
    | ok v =>
        exact extractClaims_of_nestsAtMost hlimit (hlimit.parse_depth hparse)
          (hnests bytes hbytes v hparse)

/-- An empty claims map in so many messages, one in the payload of the other. -/
def nestedMessage : Nat → Value
  | 0 => .map []
  | n + 1 => .array [.bytes [], .map [], .bytes (Definite.encode (nestedMessage n)), .bytes []]

theorem depth_nestedMessage (n : Nat) : (nestedMessage n).depth ≤ MAX_NESTING := by
  cases n with
  | zero => decide
  | succ n => simp [nestedMessage, Value.depth, Value.depthItems, Value.depthEntries, MAX_NESTING]

theorem parse_nestedMessage (n : Nat) :
    parse Definite.codec (Definite.encode (nestedMessage n)) = .ok (nestedMessage n) :=
  (Definite.codec_roundTrips.keeps _).parse_encode rfl (depth_nestedMessage n)

theorem nestedItem_nestedMessage (n : Nat) :
    nestedItem Platform.bare Definite.codec (nestedMessage (n + 1)) = some (nestedMessage n) := by
  have hitem : nestedItem Platform.bare Definite.codec (nestedMessage (n + 1)) =
      (parse Definite.codec (Definite.encode (nestedMessage n))).toOption := rfl
  rw [hitem, parse_nestedMessage]
  rfl

theorem nestsAtMost_nestedMessage {n m : Nat}
    (h : NestsAtMost Platform.bare Definite.codec m (nestedMessage n)) : n ≤ m := by
  induction m generalizing n with
  | zero =>
      cases n with
      | zero => exact le_rfl
      | succ n => cases h.symm.trans (nestedItem_nestedMessage n)
  | succ m ih =>
      cases n with
      | zero => exact Nat.zero_le _
      | succ n => exact Nat.succ_le_succ (ih (h _ (nestedItem_nestedMessage n)))

theorem nestsAtMost_self (n : Nat) :
    NestsAtMost Platform.bare Definite.codec n (nestedMessage n) := by
  induction n with
  | zero => rfl
  | succ n ih =>
      intro inner hinner
      obtain rfl := Option.some.inj ((nestedItem_nestedMessage n).symm.trans hinner)
      exact ih

/-- Messages that are nested twice at most are unwrapped in a bounded number of calls. -/
theorem unwrapping_bounded_iff_twice :
    ∃ calls, ∀ n ≤ 2, EndsWithin Platform.bare Definite.codec calls
      (Definite.encode (nestedMessage n)) := by
  have hiff := unwrapping_bounded_iff Platform.bare Definite.codec_limited
    {bytes | ∃ n ≤ 2, bytes = Definite.encode (nestedMessage n)}
  obtain ⟨calls, hends⟩ := hiff.2 ⟨2, by
    rintro bytes ⟨n, hn, rfl⟩ v hparse
    obtain rfl := Except.ok.inj ((parse_nestedMessage n).symm.trans hparse)
    exact (nestsAtMost_self n).mono hn⟩
  exact ⟨calls, fun n hn => hends _ ⟨n, hn, rfl⟩⟩

/-- No number of calls is enough for all messages: one more message around takes more. -/
theorem unwrapping_unbounded :
    ¬ ∃ calls, ∀ bytes, EndsWithin Platform.bare Definite.codec calls bytes := by
  rintro ⟨calls, hends⟩
  have hchain := hends (Definite.encode (nestedMessage (calls + 1)))
  rw [EndsWithin, claimsValue, parse_nestedMessage] at hchain
  have hle := nestsAtMost_nestedMessage (nestsAtMost_of_extractClaims hchain)
  omega

end VgiCbor.Cwt
