import VgiCbor.Core.CanonicalJson
import VgiCbor.Core.DiagnosticReadable
import VgiCbor.Security.Cwt

/-!
# The claims of a token

`cwtClaims` reads the registered claims 1 to 7 into named fields and all others into one
JSON object.  A COSE message around the claims makes no difference
(`cwtClaims_transparent`).  The keys of the private claims, of whatever type, are turned into
text: no claim is lost exactly if no two of them have the same text
(`private_claims_kept_iff`).
-/

namespace VgiCbor.Cwt

open MachineInt Cose Security Json SortedMap Diagnostic

/-- A decoded claim set; times are in epoch seconds, and private claims are one JSON object. -/
structure CwtClaims where
  iss : Option String
  sub : Option String
  aud : Option String
  exp : Option I64
  nbf : Option I64
  iat : Option I64
  cti : Option Bytes
  extra : Option String

/-- `CwtClaims::default()` -/
def CwtClaims.default : CwtClaims := ⟨none, none, none, none, none, none, none, none⟩

/-- Text, a byte string as base64url, or an integer in decimal. -/
def asText : Value → Option String
  | .text s => some s
  | .bytes b => some (b64url b)
  | .integer i => some (toString i.val)
  | _ => none

/-- A number of seconds, below any tags. -/
def asSeconds : Value → Option I64
  | .integer i => Ranged.tryFrom _ _ i.val
  | .float f => some f.toI64
  | .tag _ inner => asSeconds inner
  | _ => none

variable (platform : Platform) (codec : CborCodec)

/-- The name of a private claim: a text as it is, any other key in diagnostic notation. -/
def extraKey : Value → String
  | .text s => s
  | .integer i => toString i.val
  | other => diagnosticKey platform.fp other

/-- One entry of the claims map. -/
def claimEntry (state : CwtClaims × List (String × Json)) :
    Value × Value → CwtClaims × List (String × Json)
  | (k, v) =>
      let (claims, extra) := state
      match label (k, v) with
      | some 1 => ({ claims with iss := asText v }, extra)
      | some 2 => ({ claims with sub := asText v }, extra)
      | some 3 => ({ claims with aud := asText v }, extra)
      | some 4 => ({ claims with exp := asSeconds v }, extra)
      | some 5 => ({ claims with nbf := asSeconds v }, extra)
      | some 6 => ({ claims with iat := asSeconds v }, extra)
      | some 7 => ({ claims with cti := asBytes v }, extra)
      | _ => (claims, insert (extraKey platform k) (toJsonValue platform v) extra)

/-- The members of the object of private claims. -/
def extraClaims (entries : List (Value × Value)) : List (String × Json) :=
  (entries.foldl (claimEntry platform) (CwtClaims.default, [])).2

/-- Read the claims map. -/
def readClaims : Value → Except DecodeError CwtClaims
  | .map entries =>
      let (claims, extra) := entries.foldl (claimEntry platform) (CwtClaims.default, [])
      .ok (if extra.isEmpty then claims
        else { claims with extra := some (platform.jsonText (.object extra)) })
  | _ => .error (.structural "CWT claims are not a map")

/-- Decode the claim set, cut off after so many calls. -/
def cwtClaims (calls : Nat) (bytes : Bytes) : Option (Except DecodeError CwtClaims) :=
  (claimsValue platform codec calls bytes).map fun result => result.bind (readClaims platform)

/-- What decoding the claim set returns, with some number of calls. -/
def Returns (bytes : Bytes) (result : Except DecodeError CwtClaims) : Prop :=
  ∃ calls, cwtClaims platform codec calls bytes = some result

/-! ## Messages around the claims -/

variable {platform codec}

theorem returns_iff {bytes : Bytes} {result : Except DecodeError CwtClaims} :
    Returns platform codec bytes result ↔
      ∃ found, (∃ calls, claimsValue platform codec calls bytes = some found) ∧
        found.bind (readClaims platform) = result := by
  simp only [Returns, cwtClaims, Option.map_eq_some_iff]
  constructor
  · rintro ⟨calls, found, hfound, hread⟩
    exact ⟨found, ⟨calls, hfound⟩, hread⟩
  · rintro ⟨found, ⟨calls, hfound⟩, hread⟩
    exact ⟨calls, found, hfound, hread⟩

/-- The payload of a message does not depend on the tag it is decoded under. -/
theorem decodeArray_payload {value : Value} {tag tag' : Option UInt64} {d : CoseDecoded}
    (h : decodeArray platform codec value tag = .ok d) :
    ∃ d', decodeArray platform codec value tag' = .ok d' ∧ d'.payload = d.payload := by
  unfold decodeArray at h ⊢
  split at h
  · cases h
    exact ⟨_, rfl, rfl⟩
  · cases h
  · cases h

/-- No call is returned from without one more. -/
theorem exists_extractClaims_succ {v : Value} {found : Except DecodeError Value} :
    (∃ calls, extractClaims platform codec calls v = some found) ↔
      ∃ calls, extractClaims platform codec (calls + 1) v = some found := by
  constructor
  · rintro ⟨calls, h⟩
    cases calls with
    | zero => cases h
    | succ calls => exact ⟨calls, h⟩
  · rintro ⟨calls, h⟩
    exact ⟨calls + 1, h⟩

/-- Where a message is decoded below an envelope, the claims are looked for in the payload of
the same message. -/
theorem extractClaims_envelope {value : Value} {outerTag : Option UInt64} {d : CoseDecoded}
    (h : decodeValue platform codec value outerTag = .ok d) :
    ∃ message d', decodeValue platform codec message none = .ok d' ∧ d'.payload = d.payload ∧
      ∀ found, (∃ calls, extractClaims platform codec calls value = some found) ↔
        ∃ calls, payloadClaims platform codec (extractClaims platform codec calls) message =
          some found := by
  induction value generalizing outerTag d with
  | tag t inner ih =>
      by_cases hself : t = 55799
      · subst hself
        rw [decodeValue, if_pos rfl] at h
        simp only [extractClaims_transparent]
        exact ih h
      · by_cases hcwt : t = 61
        · subst hcwt
          rw [decodeValue, if_neg hself, if_pos rfl] at h
          cases hinner : decodeValue platform codec inner (some 61) with
          | error e =>
              rw [hinner] at h
              cases h
          | ok decoded =>
              rw [hinner] at h
              -- Relabelling leaves the payload as it is.
              have hpayload : d.payload = decoded.payload := by
                obtain rfl := Except.ok.inj h
                dsimp only
                split <;> rfl
              rw [hpayload]
              simp only [exists_extractClaims_succ (v := .tag 61 inner), extractClaims_cwt]
              exact ih hinner
        · refine ⟨.tag t inner, d, ?_, rfl, fun found => ?_⟩
          · rw [decodeValue, if_neg hself, if_neg hcwt] at h ⊢
            exact h
          · have hstrip : stripTransparent (.tag t inner) = .tag t inner := by
              rw [stripTransparent, if_neg hself]
            rw [exists_extractClaims_succ]
            simp only [extractClaims, hstrip, if_neg hcwt]
  | array items =>
      obtain ⟨d', hd', hpayload⟩ := @decodeArray_payload platform codec _ _ none _ h
      exact ⟨.array items, d', hd', hpayload, fun found => exists_extractClaims_succ⟩
  | _ => cases h

/-- Where a COSE message is decoded, the claims are those in its payload, and without one there
are none. -/
theorem claimsValue_envelope {blob : Bytes} {d : CoseDecoded}
    (h : coseDecode platform codec blob = .ok d) (found : Except DecodeError Value) :
    (∃ calls, claimsValue platform codec calls blob = some found) ↔
      match d.payload with
      | some payload => ∃ calls, claimsValue platform codec calls payload = some found
      | none => found = .error (.structural "COSE message has no payload") := by
  unfold coseDecode at h
  cases hparse : parse codec blob with
  | error e =>
      rw [hparse] at h
      cases h
  | ok value =>
      rw [hparse] at h
      obtain ⟨message, d', hmessage, hpayload, hcalls⟩ := extractClaims_envelope h
      simp only [claimsValue, hparse]
      rw [hcalls found]
      simp only [payloadClaims, hmessage, hpayload]
      cases d.payload with
      | none => simp [eq_comm]
      | some payload => exact Iff.rfl

/-- A COSE message around a claim set makes no difference to what is returned, and a message
without a payload is refused. -/
theorem cwtClaims_transparent {blob : Bytes} {d : CoseDecoded}
    (h : coseDecode platform codec blob = .ok d) :
    match d.payload with
    | some payload => ∀ result,
        Returns platform codec blob result ↔ Returns platform codec payload result
    | none => ∃ e, ∀ result, Returns platform codec blob result ↔ result = .error e := by
  have hvalue := claimsValue_envelope h
  cases hpayload : d.payload with
  | some payload =>
      intro result
      simp only [hpayload] at hvalue
      simp only [returns_iff, hvalue]
  | none =>
      refine ⟨.structural "COSE message has no payload", fun result => ?_⟩
      simp only [hpayload] at hvalue
      simp only [returns_iff, hvalue]
      constructor
      · rintro ⟨found, rfl, hread⟩
        exact hread.symm
      · rintro rfl
        exact ⟨_, rfl, rfl⟩

/-- A claims map inside a signed message, inside a self-describe and a CWT tag. -/
def wrappedClaims (claims : Value) : Value :=
  .tag 55799 (.tag 61 (.tag 18
    (.array [.bytes [], .map [], .bytes (Definite.encode claims), .bytes []])))

theorem coseDecode_wrappedClaims (claims : Value) :
    ∃ d, coseDecode .bare Definite.codec (Definite.encode (wrappedClaims claims)) = .ok d ∧
      d.payload = some (Definite.encode claims) := by
  have hdepth : (wrappedClaims claims).depth ≤ MAX_NESTING := by
    simp [wrappedClaims, Value.depth, Value.depthItems, Value.depthEntries, MAX_NESTING]
  have hparse : parse Definite.codec (Definite.encode (wrappedClaims claims)) =
      .ok (wrappedClaims claims) := (Definite.codec_roundTrips.keeps _).parse_encode rfl hdepth
  refine ⟨_, by rw [coseDecode, hparse]; rfl, rfl⟩

theorem cwtClaims_transparent_wrapped :
    Returns .bare Definite.codec (Definite.encode (wrappedClaims (.map [])))
      (.ok CwtClaims.default) := by
  obtain ⟨d, hd, hpayload⟩ := coseDecode_wrappedClaims (.map [])
  have htransparent := cwtClaims_transparent hd
  rw [hpayload] at htransparent
  exact (htransparent _).2 ⟨1, rfl⟩

/-! ## Private claims -/

/-- The key is not the label of a registered claim. -/
def isPrivate (e : Value × Value) : Bool := (label e).all fun l => !decide (1 ≤ l ∧ l ≤ 7)

/-- Two claim keys have one text: a text key is the diagnostic notation of another key, or
both are written in diagnostic notation, and read alike. -/
def Clash (fp : Binary64.FloatOps) : Value → Value → Prop
  | .text s, .text t => s = t
  | .text s, l => s = diagnosticKey fp l
  | k, .text t => diagnosticKey fp k = t
  | k, l => Like (ShownAs fp) k l

theorem claimEntry_registered {e : Value × Value} (h : isPrivate e = false)
    (state : CwtClaims × List (String × Json)) :
    (claimEntry platform state e).2 = state.2 := by
  obtain ⟨k, v⟩ := e
  unfold isPrivate at h
  cases hlabel : label (k, v) with
  | none =>
      rw [hlabel] at h
      cases h
  | some l =>
      rw [hlabel, Option.all_some] at h
      have hrange : l = 1 ∨ l = 2 ∨ l = 3 ∨ l = 4 ∨ l = 5 ∨ l = 6 ∨ l = 7 := by
        simp only [Bool.not_eq_false', decide_eq_true_eq] at h
        omega
      rcases hrange with rfl | rfl | rfl | rfl | rfl | rfl | rfl <;>
        simp only [claimEntry, hlabel]

theorem claimEntry_private {e : Value × Value} (h : isPrivate e = true)
    (state : CwtClaims × List (String × Json)) :
    claimEntry platform state e =
      (state.1, insert (extraKey platform e.1) (toJsonValue platform e.2) state.2) := by
  obtain ⟨k, v⟩ := e
  unfold isPrivate at h
  unfold claimEntry
  -- None of the registered labels is a private one.
  have hlabel (n : Int) (hn : 1 ≤ n ∧ n ≤ 7) : label (k, v) ≠ some n := by
    intro heq
    rw [heq] at h
    simp [hn] at h
  dsimp only
  split
  · next heq => exact absurd heq (hlabel 1 (by decide))
  · next heq => exact absurd heq (hlabel 2 (by decide))
  · next heq => exact absurd heq (hlabel 3 (by decide))
  · next heq => exact absurd heq (hlabel 4 (by decide))
  · next heq => exact absurd heq (hlabel 5 (by decide))
  · next heq => exact absurd heq (hlabel 6 (by decide))
  · next heq => exact absurd heq (hlabel 7 (by decide))
  · rfl

/-- The private claims fill the object, each under its text; a later one replaces an earlier
one with the same text. -/
theorem extraClaims_eq_fill (entries : List (Value × Value)) :
    extraClaims platform entries =
      fill (fun e => extraKey platform e.1) (fun e => toJsonValue platform e.2)
        (entries.filter isPrivate) [] := by
  unfold extraClaims
  generalize CwtClaims.default = claims
  generalize ([] : List (String × Json)) = extra
  induction entries generalizing claims extra with
  | nil => rfl
  | cons e entries ih =>
      rw [List.foldl_cons]
      by_cases hprivate : isPrivate e = true
      · rw [claimEntry_private hprivate, ih, List.filter_cons_of_pos hprivate, insert_eq_upsert]
        rfl
      · rw [Bool.not_eq_true] at hprivate
        have hextra := @claimEntry_registered platform e hprivate (claims, extra)
        rw [List.filter_cons_of_neg (by simp [hprivate])]
        generalize claimEntry platform (claims, extra) e = state at hextra
        obtain ⟨claims', extra'⟩ := state
        obtain rfl : extra' = extra := hextra
        exact ih claims' extra'

/-- No claim sets the object itself. -/
theorem claimEntry_extra (state : CwtClaims × List (String × Json)) (e : Value × Value) :
    (claimEntry platform state e).1.extra = state.1.extra := by
  unfold claimEntry
  dsimp only
  split <;> rfl

/-- The object is left out where there is no private claim. -/
theorem readClaims_extra (entries : List (Value × Value)) :
    ∃ claims, readClaims platform (.map entries) = .ok claims ∧
      claims.extra = if (extraClaims platform entries).isEmpty then none
        else some (platform.jsonText (.object (extraClaims platform entries))) := by
  have hnone : (entries.foldl (claimEntry platform) (CwtClaims.default, [])).1.extra = none :=
    LabelScan.foldl_const (fun state : CwtClaims × List (String × Json) => state.1.extra)
      claimEntry_extra _ entries
  refine ⟨_, rfl, ?_⟩
  unfold extraClaims
  split_ifs
  · exact hnone
  · rfl

theorem extraKey_eq (k : Value) :
    extraKey platform k = match k with
      | .text s => s
      | other => diagnosticKey platform.fp other := by
  cases k with
  | integer i => exact String.toList_inj.1 (by simp [extraKey, diagnosticKey, render])
  | _ => rfl

/-- Two keys have one text exactly if they clash. -/
theorem extraKey_eq_iff (hdisplay : Displays platform.fp) {k l : Value} :
    extraKey platform k = extraKey platform l ↔ Clash platform.fp k l := by
  have hread : diagnosticKey platform.fp k = diagnosticKey platform.fp l ↔
      Like (ShownAs platform.fp) k l := by
    rw [diagnosticKey, diagnosticKey, String.ofList_inj, render_eq_iff hdisplay]
  rw [extraKey_eq, extraKey_eq]
  cases k with
  | text s => cases l <;> exact Iff.rfl
  | _ =>
      cases l with
      | text t => exact Iff.rfl
      | _ => exact hread

/-- Every private claim has a member of its own in the object, with its value as JSON, and
there are no others, exactly if no two keys of private claims clash. -/
theorem private_claims_kept_iff (hdisplay : Displays platform.fp) {blob : Bytes}
    {entries : List (Value × Value)}
    (hfound : ∃ calls, claimsValue platform codec calls blob = some (.ok (.map entries))) :
    ∃ claims, Returns platform codec blob (.ok claims) ∧
      (claims.extra = if (extraClaims platform entries).isEmpty then none
        else some (platform.jsonText (.object (extraClaims platform entries)))) ∧
      (((extraClaims platform entries).map Prod.snd).Perm
          ((entries.filter isPrivate).map fun e => toJsonValue platform e.2) ↔
        (entries.filter isPrivate).Pairwise fun e f => ¬ Clash platform.fp e.1 f.1) := by
  obtain ⟨claims, hread, hextra⟩ := @readClaims_extra platform entries
  have hnodup : ((entries.filter isPrivate).map fun e => extraKey platform e.1).Nodup ↔
      (entries.filter isPrivate).Pairwise fun e f => ¬ Clash platform.fp e.1 f.1 := by
    rw [List.Nodup, List.pairwise_map]
    simp only [ne_eq, extraKey_eq_iff hdisplay]
  refine ⟨claims, returns_iff.2 ⟨_, hfound, hread⟩, hextra, ?_⟩
  rw [extraClaims_eq_fill, ← hnodup]
  constructor
  · intro hperm
    have hlen := hperm.length_eq
    rw [List.length_map, List.length_map] at hlen
    exact length_fill_eq_iff.1 hlen
  · intro hkeys
    let rendered (e : Value × Value) := toJsonValue platform e.2
    have hperm := (@fill_perm _ _ _ _ _ rendered _ hkeys).map Prod.snd
    rwa [List.map_map] at hperm

/-- A platform that displays floats. -/
def displayPlatform : Platform := { Platform.bare with fp := sampleOps }

/-- A private claim under an integer, and one under a text. -/
def twoClaims (name : String) : List (Value × Value) :=
  [(.integer (smallInt 8), .null), (.text name, .bool true)]

theorem claimsValue_twoClaims (name : String) :
    ∃ calls, claimsValue displayPlatform Definite.codec calls
      (Definite.encode (.map (twoClaims name))) = some (.ok (.map (twoClaims name))) := by
  have hdepth : (Value.map (twoClaims name)).depth ≤ MAX_NESTING := by
    simp [twoClaims, Value.depth, Value.depthEntries, MAX_NESTING]
  have hparse : parse Definite.codec (Definite.encode (.map (twoClaims name))) =
      .ok (.map (twoClaims name)) := (Definite.codec_roundTrips.keeps _).parse_encode rfl hdepth
  exact ⟨1, by rw [claimsValue, hparse]; rfl⟩

theorem private_claims_kept_iff_two :
    ((extraClaims displayPlatform (twoClaims "a")).map Prod.snd).Perm [.null, .bool true] := by
  obtain ⟨claims, -, -, hiff⟩ := @private_claims_kept_iff displayPlatform Definite.codec
    sampleOps_displays _ _ (claimsValue_twoClaims "a")
  refine hiff.2 ?_
  have hclash : ¬ Clash displayPlatform.fp (.integer (smallInt 8)) (.text "a") := by
    show diagnosticKey displayPlatform.fp (.integer (smallInt 8)) ≠ "a"
    decide
  exact List.pairwise_pair.2 hclash

/-- The claim under the text "8" replaces the one under the integer 8. -/
theorem integer_claim_replaced :
    ((twoClaims "8").map Prod.fst).Pairwise (· ≠ ·) ∧
      (twoClaims "8").filter isPrivate = twoClaims "8" ∧
      (∃ calls, claimsValue displayPlatform Definite.codec calls
        (Definite.encode (.map (twoClaims "8"))) = some (.ok (.map (twoClaims "8")))) ∧
      extraClaims displayPlatform (twoClaims "8") = [("8", .bool true)] := by
  refine ⟨?_, rfl, claimsValue_twoClaims "8", rfl⟩
  exact List.pairwise_pair.2 (by rintro ⟨⟩)

end VgiCbor.Cwt
