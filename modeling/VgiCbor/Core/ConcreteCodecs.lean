import VgiCbor.Core.Encode
import VgiCbor.Core.Seq

/-!
# Concrete codecs

The CBOR byte format with definite lengths and 64-bit floats.  The decoder reads one
byte at a time and keeps the containers it is inside on a stack.  It has everything
the repository asks of its codec: decoding undoes encoding under every recursion limit
the value keeps to, and a value nested deeper is refused (`codec_roundTrips`).  For
MessagePack, only the formats of a single head byte are read.
-/

namespace VgiCbor.Definite

open MachineInt BigEndian Binary64 ItemStream

/-! ## Encoding -/

/-- An initial byte: the major type and five bits of additional information. -/
def initial (major info : Nat) : UInt8 := UInt8.ofNat (major * 32 + info)

/-- The initial byte and the argument behind it. -/
def headBytes (major n : Nat) : Bytes :=
  if n < 24 then [initial major n]
  else if n < 0x100 then initial major 24 :: toBytes 1 n
  else if n < 0x10000 then initial major 25 :: toBytes 2 n
  else if n < 0x100000000 then initial major 26 :: toBytes 4 n
  else if n < 0x10000000000000000 then initial major 27 :: toBytes 8 n
  -- A length no machine holds: unary behind a reserved initial byte.
  else initial major 28 :: (List.replicate n 0 ++ [1])

mutual

/-- The bytes of an item. -/
def encode : Value → Bytes
  | .null => [initial 7 22]
  | .bool b => [initial 7 (if b then 21 else 20)]
  | .integer n =>
      if 0 ≤ n.val then headBytes 0 n.val.toNat else headBytes 1 (-1 - n.val).toNat
  | .float f => initial 7 27 :: toBytes 8 f.bits.toNat
  | .text s => headBytes 3 s.toUTF8.data.toList.length ++ s.toUTF8.data.toList
  | .bytes b => headBytes 2 b.length ++ b
  | .array items => headBytes 4 items.length ++ encodeItems items
  | .map entries => headBytes 5 entries.length ++ encodeEntries entries
  | .tag t inner => headBytes 6 t.toNat ++ encode inner

/-- The items of an array, one after the other. -/
def encodeItems : List Value → Bytes
  | [] => []
  | v :: vs => encode v ++ encodeItems vs

/-- The entries of a map, key before value. -/
def encodeEntries : List (Value × Value) → Bytes
  | [] => []
  | (k, v) :: es => encode k ++ (encode v ++ encodeEntries es)

end

/-! ## Decoding -/

/-- A container that is being read.  The numbers count the items and entries still to
come behind the current one; what was read is kept in reverse. -/
inductive Frame where
  | items (more : Nat) (read : List Value)
  | key (more : Nat) (read : List (Value × Value))
  | value (more : Nat) (read : List (Value × Value)) (k : Value)
  | tag (t : UInt64)

/-- What the decoder is in the middle of. -/
inductive State where
  /-- The next byte is an initial byte. -/
  | head (stack : List Frame)
  /-- So many bytes of the argument are missing. -/
  | argument (stack : List Frame) (major left acc : Nat)
  /-- The argument is in unary. -/
  | unary (stack : List Frame) (major acc : Nat)
  /-- So many bytes of a string are missing. -/
  | payload (stack : List Frame) (isText : Bool) (left : Nat) (acc : Bytes)
  | done (v : Value)
  | failed (e : CiboriumError)

/-- An item is complete: it goes into the innermost open container, which may complete
that one too. -/
def finish : List Frame → Value → State
  | [], v => .done v
  | .items 0 read :: stack, v => finish stack (.array (read.reverse ++ [v]))
  | .items (more + 1) read :: stack, v => .head (.items more (v :: read) :: stack)
  | .key more read :: stack, v => .head (.value more read v :: stack)
  | .value 0 read k :: stack, v => finish stack (.map (read.reverse ++ [(k, v)]))
  | .value (more + 1) read k :: stack, v => .head (.key more ((k, v) :: read) :: stack)
  | .tag t :: stack, v => finish stack (.tag t v)

/-- An integer of either sign. -/
def integerOf (stack : List Frame) (n : Int) : State :=
  match (Ranged.tryFrom _ _ n : Option Integer) with
  | some i => finish stack (.integer i)
  | none => .failed (.syntaxAt 0)

/-- A string is complete.  Text that is no UTF-8 is refused here, and not before its last
byte. -/
def filled (stack : List Frame) (isText : Bool) (bytes : Bytes) : State :=
  if isText then
    match String.fromUTF8? ⟨bytes.toArray⟩ with
    | some s => finish stack (.text s)
    | none => .failed (.semantic "invalid utf-8")
  else finish stack (.bytes bytes)

/-- A string of `n` bytes. -/
def payloadOf (stack : List Frame) (isText : Bool) (n : Nat) : State :=
  if n = 0 then filled stack isText [] else .payload stack isText n []

/-- What follows the head of an array of `n` items. -/
def insideArray (stack : List Frame) : Nat → State
  | 0 => finish stack (.array [])
  | more + 1 => .head (.items more [] :: stack)

/-- What follows the head of a map of `n` entries. -/
def insideMap (stack : List Frame) : Nat → State
  | 0 => finish stack (.map [])
  | more + 1 => .head (.key more [] :: stack)

variable (limit : Nat)

/-- Enter a container, unless that exceeds the recursion limit.  An empty container counts
like any other. -/
def enter (stack : List Frame) (inside : State) : State :=
  if stack.length < limit then inside else .failed .recursionLimitExceeded

/-- The argument is complete: the item is, too, or its string or its first element follows. -/
def argued (stack : List Frame) (major n : Nat) : State :=
  if major = 0 then integerOf stack n
  else if major = 1 then integerOf stack (-1 - n)
  else if major = 2 then payloadOf stack false n
  else if major = 3 then payloadOf stack true n
  else if major = 4 then enter limit stack (insideArray stack n)
  else if major = 5 then enter limit stack (insideMap stack n)
  else if major = 6 then enter limit stack (.head (.tag (UInt64.ofNat n) :: stack))
  else finish stack (.float ⟨UInt64.ofNat n⟩)

/-- The simple values, and the head of a float. -/
def simple (stack : List Frame) (info : Nat) : State :=
  match info with
  | 20 => finish stack (.bool false)
  | 21 => finish stack (.bool true)
  | 22 => finish stack .null
  | 27 => .argument stack 7 8 0
  | _ => .failed (.semantic "unsupported simple value")

/-- The argument follows in the next bytes. -/
def argumentBehind (stack : List Frame) (major info : Nat) : State :=
  match info with
  | 24 => .argument stack major 1 0
  | 25 => .argument stack major 2 0
  | 26 => .argument stack major 4 0
  | 27 => .argument stack major 8 0
  | 28 => .unary stack major 0
  | _ => .failed (.syntaxAt 0)

def onInitial (stack : List Frame) (major info : Nat) : State :=
  if major = 7 then simple stack info
  else if info < 24 then argued limit stack major info
  else argumentBehind stack major info

def next : State → UInt8 → State
  | .head stack, b => onInitial limit stack (b.toNat / 32) (b.toNat % 32)
  | .argument stack major left acc, b =>
      if left ≤ 1 then argued limit stack major (acc * 256 + b.toNat)
      else .argument stack major (left - 1) (acc * 256 + b.toNat)
  | .unary stack major acc, b =>
      if b = 0 then .unary stack major (acc + 1) else argued limit stack major acc
  | .payload stack isText left acc, b =>
      if left ≤ 1 then filled stack isText (acc.reverse ++ [b])
      else .payload stack isText (left - 1) (b :: acc)
  | q, _ => q

/-- What the decoder does next. -/
def act : State → Action State Value CiboriumError
  | .done v => .done v
  | .failed e => .fail e
  | q => .need .unexpectedEof .io (next limit q)

/-- The decoder under a recursion limit. -/
def decoder : ItemDecoder Value CiboriumError where
  State := State
  start := .head []
  act := act limit
  progress v h := by cases h

/-- The codec. -/
def codec : CborCodec where
  encode v := .ok (encode v)
  decoder := decoder

/-! ## Reading back what was written -/

/-- The decoder from a given state on. -/
abbrev runFrom (limit : Nat) (q : State) (bytes : Bytes) : Except CiboriumError (Value × Bytes) :=
  (decoder limit).runFrom q bytes

theorem runFrom_failed (e : CiboriumError) (bytes : Bytes) :
    runFrom limit (.failed e) bytes = .error e := by
  cases bytes <;> rfl

theorem initial_toNat {major info : Nat} (hmajor : major < 8) (hinfo : info < 32) :
    (initial major info).toNat / 32 = major ∧ (initial major info).toNat % 32 = info := by
  have hval : (initial major info).toNat = (major * 32 + info) % 256 := UInt8.toNat_ofNat'
  omega

theorem runFrom_initial (stack : List Frame) {major : Nat} (info : Nat) (hmajor : major < 8)
    (hinfo : info < 32) (bytes : Bytes) :
    runFrom limit (.head stack) (initial major info :: bytes) =
      runFrom limit (onInitial limit stack major info) bytes := by
  obtain ⟨hdiv, hmod⟩ := initial_toNat hmajor hinfo
  show runFrom limit (onInitial limit stack _ _) bytes = _
  rw [hdiv, hmod]

/-- The bytes of an argument are read as the number they denote. -/
theorem runFrom_argument (stack : List Frame) (major : Nat) (acc : Nat) {bytes : Bytes}
    (hne : bytes ≠ []) (rest : Bytes) :
    runFrom limit (.argument stack major bytes.length acc) (bytes ++ rest) =
      runFrom limit (argued limit stack major (acc * 256 ^ bytes.length + ofBytes bytes))
        rest := by
  induction bytes generalizing acc with
  | nil => exact absurd rfl hne
  | cons b bytes ih =>
      have hstep : runFrom limit (.argument stack major (b :: bytes).length acc)
          (b :: bytes ++ rest) = runFrom limit
            (if bytes.length + 1 ≤ 1 then argued limit stack major (acc * 256 + b.toNat)
              else .argument stack major bytes.length (acc * 256 + b.toNat)) (bytes ++ rest) := rfl
      rw [hstep]
      cases bytes with
      | nil => simp [ofBytes]
      | cons c bytes =>
          rw [if_neg (by simp), ih _ (by simp), ofBytes_cons b]
          congr 2
          simp only [List.length_cons]
          ring

theorem runFrom_toBytes (stack : List Frame) (major : Nat) {width n : Nat} (hwidth : 0 < width)
    (hn : n < 256 ^ width) (rest : Bytes) :
    runFrom limit (.argument stack major width 0) (toBytes width n ++ rest) =
      runFrom limit (argued limit stack major n) rest := by
  have hne : toBytes width n ≠ [] := by
    intro hnil
    have hlen := toBytes_length width n
    rw [hnil, List.length_nil] at hlen
    omega
  have hrun := runFrom_argument limit stack major 0 hne rest
  rw [toBytes_length, ofBytes_toBytes_of_lt hn, Nat.zero_mul, Nat.zero_add] at hrun
  exact hrun

theorem runFrom_unary (stack : List Frame) (major acc n : Nat) (rest : Bytes) :
    runFrom limit (.unary stack major acc) (List.replicate n 0 ++ [1] ++ rest) =
      runFrom limit (argued limit stack major (acc + n)) rest := by
  induction n generalizing acc with
  | zero => rfl
  | succ n ih =>
      have hstep : runFrom limit (.unary stack major acc)
          (List.replicate (n + 1) 0 ++ [1] ++ rest) =
            runFrom limit (.unary stack major (acc + 1)) (List.replicate n 0 ++ [1] ++ rest) := rfl
      rw [hstep, ih]
      congr 2
      omega

/-- A head is read as its major type and argument. -/
theorem runFrom_headBytes (stack : List Frame) {major : Nat} (hmajor : major < 7) (n : Nat)
    (rest : Bytes) :
    runFrom limit (.head stack) (headBytes major n ++ rest) =
      runFrom limit (argued limit stack major n) rest := by
  have hinitial (info : Nat) (hinfo : info < 32) (bytes : Bytes) :
      runFrom limit (.head stack) (initial major info :: bytes) =
        runFrom limit (onInitial limit stack major info) bytes :=
    runFrom_initial limit stack info (by omega) hinfo bytes
  have hargument (info : Nat) (hinfo : 24 ≤ info) :
      onInitial limit stack major info = argumentBehind stack major info := by
    rw [onInitial, if_neg (by omega), if_neg (by omega)]
  unfold headBytes
  split_ifs with h1 h2 h3 h4 h5
  · rw [List.singleton_append, hinitial n (by omega), onInitial, if_neg (by omega), if_pos h1]
  · rw [List.cons_append, hinitial 24 (by omega), hargument 24 (by omega)]
    exact runFrom_toBytes limit stack major (by omega) (by omega) rest
  · rw [List.cons_append, hinitial 25 (by omega), hargument 25 (by omega)]
    exact runFrom_toBytes limit stack major (by omega) (by omega) rest
  · rw [List.cons_append, hinitial 26 (by omega), hargument 26 (by omega)]
    exact runFrom_toBytes limit stack major (by omega) (by omega) rest
  · rw [List.cons_append, hinitial 27 (by omega), hargument 27 (by omega)]
    exact runFrom_toBytes limit stack major (by omega) (by omega) rest
  · rw [List.cons_append, hinitial 28 (by omega), hargument 28 (by omega)]
    have hunary := runFrom_unary limit stack major 0 n rest
    rwa [Nat.zero_add] at hunary

theorem runFrom_payload (stack : List Frame) (isText : Bool) (acc : Bytes) {bytes : Bytes}
    (hne : bytes ≠ []) (rest : Bytes) :
    runFrom limit (.payload stack isText bytes.length acc) (bytes ++ rest) =
      runFrom limit (filled stack isText (acc.reverse ++ bytes)) rest := by
  induction bytes generalizing acc with
  | nil => exact absurd rfl hne
  | cons b bytes ih =>
      have hstep : runFrom limit (.payload stack isText (b :: bytes).length acc)
          (b :: bytes ++ rest) = runFrom limit
            (if bytes.length + 1 ≤ 1 then filled stack isText (acc.reverse ++ [b])
              else .payload stack isText bytes.length (b :: acc)) (bytes ++ rest) := rfl
      rw [hstep]
      cases bytes with
      | nil => rfl
      | cons c bytes =>
          rw [if_neg (by simp), ih _ (by simp), List.reverse_cons, List.append_assoc,
            List.singleton_append]

theorem runFrom_payloadOf (stack : List Frame) (isText : Bool) (bytes rest : Bytes) :
    runFrom limit (payloadOf stack isText bytes.length) (bytes ++ rest) =
      runFrom limit (filled stack isText bytes) rest := by
  unfold payloadOf
  by_cases hnil : bytes = []
  · subst hnil
    rfl
  · rw [if_neg (by simpa using hnil)]
    exact runFrom_payload limit stack isText [] hnil rest

theorem filled_text (stack : List Frame) (s : String) :
    filled stack true s.toUTF8.data.toList = finish stack (.text s) := by
  have hbytes : (⟨s.toUTF8.data.toList.toArray⟩ : ByteArray) = s.toByteArray := by simp
  have hread : String.fromUTF8? s.toByteArray = some s := by
    rw [String.fromUTF8?, dif_pos s.isValidUTF8]
    rfl
  unfold filled
  rw [if_pos rfl, hbytes, hread]

theorem integerOf_val (stack : List Frame) (n : Integer) :
    integerOf stack n.val = finish stack (.integer n) := by
  unfold integerOf
  rw [Ranged.tryFrom_val]

@[simp] theorem argued_unsigned (stack : List Frame) (n : Nat) :
    argued limit stack 0 n = integerOf stack n := by simp [argued]

@[simp] theorem argued_negative (stack : List Frame) (n : Nat) :
    argued limit stack 1 n = integerOf stack (-1 - n) := by simp [argued]

@[simp] theorem argued_bytes (stack : List Frame) (n : Nat) :
    argued limit stack 2 n = payloadOf stack false n := by simp [argued]

@[simp] theorem argued_text (stack : List Frame) (n : Nat) :
    argued limit stack 3 n = payloadOf stack true n := by simp [argued]

@[simp] theorem argued_array (stack : List Frame) (n : Nat) :
    argued limit stack 4 n = enter limit stack (insideArray stack n) := by simp [argued]

@[simp] theorem argued_map (stack : List Frame) (n : Nat) :
    argued limit stack 5 n = enter limit stack (insideMap stack n) := by simp [argued]

@[simp] theorem argued_tag (stack : List Frame) (n : Nat) :
    argued limit stack 6 n = enter limit stack (.head (.tag (UInt64.ofNat n) :: stack)) := by
  simp [argued]

@[simp] theorem argued_float (stack : List Frame) (n : Nat) :
    argued limit stack 7 n = finish stack (.float ⟨UInt64.ofNat n⟩) := by simp [argued]

variable {limit}

/-- Behind the open containers of the stack, the bytes of the value are read as that
value, unless it goes deeper than the limit. -/
def Reads (limit : Nat) (stack : List Frame) (v : Value) : Prop :=
  ∀ rest, runFrom limit (.head stack) (encode v ++ rest) =
    if stack.length + v.depth ≤ limit then runFrom limit (finish stack v) rest
    else .error .recursionLimitExceeded

theorem reads_of_flat {stack : List Frame} {v : Value} (hflat : v.depth = 0)
    (hstack : stack.length ≤ limit)
    (h : ∀ rest, runFrom limit (.head stack) (encode v ++ rest) =
      runFrom limit (finish stack v) rest) : Reads limit stack v := by
  intro rest
  rw [if_pos (by omega), h]

/-- Entering a container either goes on inside or exceeds the limit. -/
theorem runFrom_enter (stack : List Frame) (inside : State) (bytes : Bytes) :
    runFrom limit (enter limit stack inside) bytes =
      if stack.length < limit then runFrom limit inside bytes
      else .error .recursionLimitExceeded := by
  unfold enter
  split_ifs
  · rfl
  · exact runFrom_failed _ _ _

/-- The items of an array, from the first one on. -/
theorem reads_items {stack : List Frame} (hstack : stack.length + 1 ≤ limit) {items : List Value}
    (h : ∀ v ∈ items, ∀ stack, stack.length ≤ limit → Reads limit stack v) {v : Value}
    {vs : List Value} (hitems : items = v :: vs) (read : List Value) (rest : Bytes) :
    runFrom limit (.head (.items vs.length read :: stack)) (encodeItems items ++ rest) =
      if stack.length + 1 + Value.depthItems items ≤ limit then
        runFrom limit (finish stack (.array (read.reverse ++ items))) rest
      else .error .recursionLimitExceeded := by
  induction items generalizing v vs read with
  | nil => cases hitems
  | cons w ws ih =>
      cases hitems
      have hfirst := h w List.mem_cons_self (.items ws.length read :: stack) hstack
      rw [encodeItems, List.append_assoc, hfirst, Value.depthItems, List.length_cons]
      cases ws with
      | nil =>
          simp only [Value.depthItems, Nat.max_zero]
          rfl
      | cons u us =>
          have hrest := ih (fun v hv => h v (List.mem_cons_of_mem _ hv)) rfl (w :: read)
          have hmore : finish (.items (u :: us).length read :: stack) w =
              .head (.items us.length (w :: read) :: stack) := rfl
          rw [hmore, hrest, List.reverse_cons, List.append_assoc, List.singleton_append]
          by_cases hw : stack.length + 1 + w.depth ≤ limit
          · rw [if_pos hw]
            congr 1
            apply propext
            omega
          · rw [if_neg hw, if_neg (by omega)]

/-- The entries of a map, from the first one on. -/
theorem reads_entries {stack : List Frame} (hstack : stack.length + 1 ≤ limit)
    {entries : List (Value × Value)}
    (h : ∀ e ∈ entries, ∀ stack, stack.length ≤ limit →
      Reads limit stack e.1 ∧ Reads limit stack e.2)
    {e : Value × Value} {es : List (Value × Value)} (hentries : entries = e :: es)
    (read : List (Value × Value)) (rest : Bytes) :
    runFrom limit (.head (.key es.length read :: stack)) (encodeEntries entries ++ rest) =
      if stack.length + 1 + Value.depthEntries entries ≤ limit then
        runFrom limit (finish stack (.map (read.reverse ++ entries))) rest
      else .error .recursionLimitExceeded := by
  induction entries generalizing e es read with
  | nil => cases hentries
  | cons f fs ih =>
      cases hentries
      obtain ⟨k, v⟩ := f
      have hkey := (h (k, v) List.mem_cons_self (.key fs.length read :: stack) hstack).1
      have hvalue := (h (k, v) List.mem_cons_self (.value fs.length read k :: stack) hstack).2
      have hmiddle : finish (.key fs.length read :: stack) k =
          .head (.value fs.length read k :: stack) := rfl
      rw [encodeEntries, List.append_assoc, List.append_assoc, hkey, hmiddle, hvalue,
        Value.depthEntries, List.length_cons, List.length_cons]
      -- A key that is nested too deep ends the run before its value.
      by_cases hk : stack.length + 1 + k.depth ≤ limit
      · rw [if_pos hk]
        cases fs with
        | nil =>
            have hlast : finish (.value 0 read k :: stack) v =
                finish stack (.map (read.reverse ++ [(k, v)])) := rfl
            simp only [Value.depthEntries, List.length_nil, hlast]
            congr 1
            apply propext
            omega
        | cons g gs =>
            have hrest := ih (fun e he => h e (List.mem_cons_of_mem _ he)) rfl ((k, v) :: read)
            have hmore : finish (.value (g :: gs).length read k :: stack) v =
                .head (.key gs.length ((k, v) :: read) :: stack) := rfl
            rw [hmore, hrest, List.reverse_cons, List.append_assoc, List.singleton_append]
            by_cases hv : stack.length + 1 + v.depth ≤ limit
            · rw [if_pos hv]
              congr 1
              apply propext
              omega
            · rw [if_neg hv, if_neg (by omega)]
      · rw [if_neg hk, if_neg (by omega)]

theorem reads_array {stack : List Frame} (hstack : stack.length ≤ limit) {items : List Value}
    (h : ∀ v ∈ items, ∀ stack, stack.length ≤ limit → Reads limit stack v) :
    Reads limit stack (.array items) := by
  intro rest
  rw [encode, List.append_assoc, runFrom_headBytes limit stack (by omega), argued_array,
    runFrom_enter, Value.depth]
  by_cases hroom : stack.length < limit
  · rw [if_pos hroom]
    cases items with
    | nil =>
        rw [if_pos (by simp only [Value.depthItems]; omega)]
        rfl
    | cons v vs =>
        have hitems := reads_items hroom h rfl [] rest
        rw [List.reverse_nil, List.nil_append, Nat.add_right_comm] at hitems
        exact hitems
  · rw [if_neg hroom, if_neg (by omega)]

theorem reads_map {stack : List Frame} (hstack : stack.length ≤ limit)
    {entries : List (Value × Value)}
    (h : ∀ e ∈ entries, ∀ stack, stack.length ≤ limit →
      Reads limit stack e.1 ∧ Reads limit stack e.2) :
    Reads limit stack (.map entries) := by
  intro rest
  rw [encode, List.append_assoc, runFrom_headBytes limit stack (by omega), argued_map,
    runFrom_enter, Value.depth]
  by_cases hroom : stack.length < limit
  · rw [if_pos hroom]
    cases entries with
    | nil =>
        rw [if_pos (by simp only [Value.depthEntries]; omega)]
        rfl
    | cons e es =>
        have hentries := reads_entries hroom h rfl [] rest
        rw [List.reverse_nil, List.nil_append, Nat.add_right_comm] at hentries
        exact hentries
  · rw [if_neg hroom, if_neg (by omega)]

theorem reads_tag {stack : List Frame} (hstack : stack.length ≤ limit) (t : UInt64) {inner : Value}
    (h : ∀ stack, stack.length ≤ limit → Reads limit stack inner) :
    Reads limit stack (.tag t inner) := by
  intro rest
  rw [encode, List.append_assoc, runFrom_headBytes limit stack (by omega), argued_tag,
    runFrom_enter, Value.depth, UInt64.ofNat_toNat]
  by_cases hroom : stack.length < limit
  · rw [if_pos hroom, h (.tag t :: stack) hroom, List.length_cons, Nat.add_right_comm]
    rfl
  · rw [if_neg hroom, if_neg (by omega)]

/-- The decoder reads every encoded value back, up to the recursion limit. -/
theorem reads_encode (v : Value) {stack : List Frame} (hstack : stack.length ≤ limit) :
    Reads limit stack v := by
  induction v generalizing stack with
  | null => exact reads_of_flat rfl hstack fun rest =>
      runFrom_initial limit stack 22 (by omega) (by omega) rest
  | bool b =>
      refine reads_of_flat rfl hstack fun rest => ?_
      cases b
      · exact runFrom_initial limit stack 20 (by omega) (by omega) rest
      · exact runFrom_initial limit stack 21 (by omega) (by omega) rest
  | integer n =>
      refine reads_of_flat rfl hstack fun rest => ?_
      rw [encode, ← integerOf_val]
      by_cases hsign : 0 ≤ n.val
      · rw [if_pos hsign, runFrom_headBytes limit stack (by omega), argued_unsigned,
          Int.toNat_of_nonneg hsign]
      · rw [if_neg hsign, runFrom_headBytes limit stack (by omega), argued_negative,
          Int.toNat_of_nonneg (show 0 ≤ -1 - n.val by omega),
          show -1 - (-1 - n.val) = n.val by omega]
  | float f =>
      refine reads_of_flat rfl hstack fun rest => ?_
      have hbits : f.bits.toNat < 256 ^ 8 := f.bits.toNat_lt
      rw [encode, List.cons_append, runFrom_initial limit stack 27 (by omega) (by omega)]
      have hargument := runFrom_toBytes limit stack 7 (by omega) hbits rest
      rw [argued_float, UInt64.ofNat_toNat] at hargument
      exact hargument
  | text s =>
      refine reads_of_flat rfl hstack fun rest => ?_
      rw [encode, List.append_assoc, runFrom_headBytes limit stack (by omega), ← filled_text]
      exact runFrom_payloadOf limit stack true _ rest
  | bytes b =>
      refine reads_of_flat rfl hstack fun rest => ?_
      rw [encode, List.append_assoc, runFrom_headBytes limit stack (by omega)]
      exact runFrom_payloadOf limit stack false b rest
  | array items ih => exact reads_array hstack fun v hv stack hstack => ih v hv hstack
  | map entries ih =>
      exact reads_map hstack fun e he stack hstack => ⟨(ih e he).1 hstack, (ih e he).2 hstack⟩
  | tag t inner ih => exact reads_tag hstack t fun stack hstack => ih hstack

theorem run_encode (limit : Nat) (v : Value) :
    (decoder limit).run (encode v) =
      if v.depth ≤ limit then .ok (v, []) else .error .recursionLimitExceeded := by
  have hreads : Reads limit [] v := reads_encode v (Nat.zero_le _)
  have hrun := hreads []
  rw [List.append_nil, List.length_nil, Nat.zero_add] at hrun
  exact hrun

/-- The codec has everything that is asked of a codec. -/
theorem codec_roundTrips : codec.RoundTrips where
  encode_total v := ⟨encode v, rfl⟩
  decode_encode v bytes limit hencode hdepth := by
    cases hencode
    exact (run_encode limit v).trans (if_pos hdepth)
  too_deep v bytes limit hencode hdepth := by
    cases hencode
    exact (run_encode limit v).trans (if_neg (by omega))

theorem codec_injective : codec.Injective := codec_roundTrips.injective

/-! ## The recursion limit -/

/-- What a container has read, with room for the container around it. -/
def FrameFits (room : Nat) : Frame → Prop
  | .items _ read => ∀ v ∈ read, v.depth ≤ room
  | .key _ read => ∀ e ∈ read, e.1.depth ≤ room ∧ e.2.depth ≤ room
  | .value _ read k => (∀ e ∈ read, e.1.depth ≤ room ∧ e.2.depth ≤ room) ∧ k.depth ≤ room
  | .tag _ => True

/-- The open containers and what they have read stay within the limit.  This is the invariant
that carries the bound through a run. -/
def StackFits (limit : Nat) : List Frame → Prop
  | [] => True
  | frame :: stack =>
      stack.length + 1 ≤ limit ∧ FrameFits (limit - (stack.length + 1)) frame ∧
        StackFits limit stack

/-- No value in a state of the decoder goes deeper than the limit. -/
def StateFits (limit : Nat) : State → Prop
  | .head stack => StackFits limit stack
  | .argument stack _ _ _ => StackFits limit stack
  | .unary stack _ _ => StackFits limit stack
  | .payload stack _ _ _ => StackFits limit stack
  | .done v => v.depth ≤ limit
  | .failed _ => True

theorem depth_array_le {room : Nat} {items : List Value} (h : ∀ v ∈ items, v.depth ≤ room) :
    (Value.array items).depth ≤ room + 1 :=
  Nat.succ_le_succ (Value.depthItems_le.2 h)

theorem depth_map_le {room : Nat} {entries : List (Value × Value)}
    (h : ∀ e ∈ entries, e.1.depth ≤ room ∧ e.2.depth ≤ room) :
    (Value.map entries).depth ≤ room + 1 :=
  Nat.succ_le_succ (Value.depthEntries_le.2 h)

/-- An item that fits below the open containers goes into the innermost one. -/
theorem finish_fits {stack : List Frame} (hstack : StackFits limit stack) {v : Value}
    (hv : v.depth + stack.length ≤ limit) : StateFits limit (finish stack v) := by
  induction stack generalizing v with
  | nil => exact hv
  | cons frame stack ih =>
      obtain ⟨hroom, hframe, hrest⟩ := hstack
      rw [List.length_cons] at hv
      have hdepth : v.depth ≤ limit - (stack.length + 1) := by omega
      cases frame with
      | items more read =>
          have hall : ∀ w ∈ v :: read, w.depth ≤ limit - (stack.length + 1) :=
            List.forall_mem_cons.2 ⟨hdepth, hframe⟩
          cases more with
          | zero =>
              -- The last item closes the array, which fits into the container around it.
              refine ih hrest ?_
              have harray := @depth_array_le (limit - (stack.length + 1)) (read.reverse ++ [v])
                fun w hw => hall w (by simpa [or_comm] using hw)
              omega
          | succ more => exact ⟨hroom, hall, hrest⟩
      | key more read => exact ⟨hroom, ⟨hframe, hdepth⟩, hrest⟩
      | value more read k =>
          obtain ⟨hread, hk⟩ := hframe
          have hall : ∀ e ∈ (k, v) :: read, e.1.depth ≤ limit - (stack.length + 1) ∧
              e.2.depth ≤ limit - (stack.length + 1) :=
            List.forall_mem_cons.2 ⟨⟨hk, hdepth⟩, hread⟩
          cases more with
          | zero =>
              -- The last value closes the map.
              refine ih hrest ?_
              have hmap := @depth_map_le (limit - (stack.length + 1)) (read.reverse ++ [(k, v)])
                fun e he => hall e (by simpa [or_comm] using he)
              omega
          | succ more => exact ⟨hroom, hall, hrest⟩
      | tag t =>
          refine ih hrest ?_
          rw [Value.depth]
          omega

theorem StackFits.length_le {stack : List Frame} (h : StackFits limit stack) :
    stack.length ≤ limit := by
  cases stack with
  | nil => exact Nat.zero_le _
  | cons frame stack => exact h.1

/-- A scalar fits wherever the decoder has come to. -/
theorem finish_flat_fits {stack : List Frame} (hstack : StackFits limit stack) {v : Value}
    (hflat : v.depth = 0) : StateFits limit (finish stack v) :=
  finish_fits hstack (by rw [hflat, Nat.zero_add]; exact hstack.length_le)

theorem integerOf_fits {stack : List Frame} (hstack : StackFits limit stack) (n : Int) :
    StateFits limit (integerOf stack n) := by
  unfold integerOf
  split
  · exact finish_flat_fits hstack rfl
  · trivial

theorem filled_fits {stack : List Frame} (hstack : StackFits limit stack) (isText : Bool)
    (bytes : Bytes) : StateFits limit (filled stack isText bytes) := by
  unfold filled
  split
  · split
    · exact finish_flat_fits hstack rfl
    · trivial
  · exact finish_flat_fits hstack rfl

theorem payloadOf_fits {stack : List Frame} (hstack : StackFits limit stack) (isText : Bool)
    (n : Nat) : StateFits limit (payloadOf stack isText n) := by
  unfold payloadOf
  split
  · exact filled_fits hstack isText []
  · exact hstack

/-- Entering a container leaves room for it. -/
theorem enter_fits {stack : List Frame} {inside : State}
    (h : stack.length + 1 ≤ limit → StateFits limit inside) :
    StateFits limit (enter limit stack inside) := by
  unfold enter
  split
  · exact h ‹_›
  · trivial

theorem argued_fits {stack : List Frame} (hstack : StackFits limit stack) (major n : Nat) :
    StateFits limit (argued limit stack major n) := by
  have harray (hroom : stack.length + 1 ≤ limit) : StateFits limit (insideArray stack n) := by
    cases n with
    | zero =>
        refine finish_fits hstack ?_
        simp only [Value.depth, Value.depthItems]
        omega
    | succ more => exact ⟨hroom, by simp [FrameFits], hstack⟩
  have hmap (hroom : stack.length + 1 ≤ limit) : StateFits limit (insideMap stack n) := by
    cases n with
    | zero =>
        refine finish_fits hstack ?_
        simp only [Value.depth, Value.depthEntries]
        omega
    | succ more => exact ⟨hroom, by simp [FrameFits], hstack⟩
  unfold argued
  split_ifs
  · exact integerOf_fits hstack _
  · exact integerOf_fits hstack _
  · exact payloadOf_fits hstack _ _
  · exact payloadOf_fits hstack _ _
  · exact enter_fits harray
  · exact enter_fits hmap
  · exact enter_fits fun hroom => ⟨hroom, trivial, hstack⟩
  · exact finish_flat_fits hstack rfl

theorem onInitial_fits {stack : List Frame} (hstack : StackFits limit stack)
    (major info : Nat) : StateFits limit (onInitial limit stack major info) := by
  unfold onInitial
  split_ifs
  · unfold simple
    split
    · exact finish_flat_fits hstack rfl
    · exact finish_flat_fits hstack rfl
    · exact finish_flat_fits hstack rfl
    · exact hstack
    · trivial
  · exact argued_fits hstack major info
  · unfold argumentBehind
    split
    all_goals first | exact hstack | trivial

theorem next_fits {q : State} (h : StateFits limit q) (b : UInt8) :
    StateFits limit (next limit q b) := by
  cases q with
  | head stack => exact onInitial_fits h _ _
  | argument stack major left acc =>
      rw [next]
      split_ifs
      · exact argued_fits h _ _
      · exact h
  | unary stack major acc =>
      rw [next]
      split_ifs
      · exact h
      · exact argued_fits h _ _
  | payload stack isText left acc =>
      rw [next]
      split_ifs
      · exact filled_fits h _ _
      · exact h
  | done v => exact h
  | failed e => exact h

/-- The decoder keeps to its recursion limit on every input, well formed or not. -/
theorem codec_limited : codec.Limited := by
  intro bytes limit v rest hrun
  have hstart : StateFits limit (decoder limit).start := trivial
  refine @ItemDecoder.runFrom_inv _ _ (decoder limit) (StateFits limit)
    (fun v => v.depth ≤ limit) ?_ ?_ _ hstart _ _ _ hrun
  · intro q short io next b hact hq
    cases q <;> cases hact <;> exact next_fits hq b
  · intro q item hact hq
    cases q <;> cases hact
    exact hq

end VgiCbor.Definite

/-! ## MessagePack -/

namespace VgiCbor.FixMsgpack

open MachineInt ItemStream Msgpack

/-- The value the reader is in the middle of: each open array with the number of items
still to come behind the current one, and those read so far in reverse. -/
inductive State where
  | head (stack : List (Nat × List Mp))
  | done (v : Mp)
  | failed (e : String)

/-- An item is complete. -/
def finish : List (Nat × List Mp) → Mp → State
  | [], v => .done v
  | (0, read) :: stack, v => finish stack (.array (read.reverse ++ [v]))
  | (more + 1, read) :: stack, v => .head ((more, v :: read) :: stack)

/-- A marker byte: small integers, `nil`, booleans and short arrays. -/
def onMarker (stack : List (Nat × List Mp)) (b : Nat) : State :=
  if 1024 ≤ stack.length then .failed "depth limit exceeded"
  else if h : b < 0x80 then finish stack (.integer ⟨b, by omega, by omega⟩)
  else if b = 0xc0 then finish stack .nil
  else if b = 0xc2 then finish stack (.boolean false)
  else if b = 0xc3 then finish stack (.boolean true)
  else if b = 0x90 then finish stack (.array [])
  else if 0x90 < b ∧ b < 0xa0 then .head ((b - 0x91, []) :: stack)
  else .failed "unsupported marker"

/-- What the decoder does next. -/
def act : State → Action State Mp String
  | .done v => .done v
  | .failed e => .fail e
  | .head stack => .need "unexpected end of file" id fun b => onMarker stack b.toNat

/-- The decoder. -/
def decoder : ItemDecoder Mp String where
  State := State
  start := .head []
  act := act
  progress v h := by cases h

mutual

/-- The bytes of an item in these formats. -/
def encode : Mp → Except String Bytes
  | .nil => .ok [0xc0]
  | .boolean b => .ok [if b then 0xc3 else 0xc2]
  | .integer n =>
      if 0 ≤ n.val ∧ n.val < 0x80 then .ok [UInt8.ofNat n.val.toNat]
      else .error "unsupported item"
  | .array items =>
      if items.length < 16 then
        (encodeItems items).map fun bytes => UInt8.ofNat (0x90 + items.length) :: bytes
      else .error "unsupported item"
  | _ => .error "unsupported item"

/-- The items of an array, one after the other. -/
def encodeItems : List Mp → Except String Bytes
  | [] => .ok []
  | v :: vs => (encode v).bind fun b => (encodeItems vs).map fun bs => b ++ bs

end

/-- The codec. -/
def codec : MpCodec where
  encode := encode
  decoder := decoder

example : decoder.run [0x92, 0x01, 0x91, 0xc0, 0xc3] =
    .ok (.array [.integer ⟨1, by decide, by decide⟩, .array [.nil]], [0xc3]) := by rfl

/-- Within the depth limit the bytes of an item are read as that item, behind the open
arrays of the stack. -/
def Reads (v : Mp) : Prop :=
  ∀ stack bytes rest, encode v = .ok bytes → stack.length + v.depth ≤ 1023 →
    decoder.runFrom (.head stack) (bytes ++ rest) = decoder.runFrom (finish stack v) rest

theorem runFrom_marker (stack : List (Nat × List Mp)) (b : UInt8) (rest : Bytes) :
    decoder.runFrom (.head stack) (b :: rest) = decoder.runFrom (onMarker stack b.toNat) rest := by
  rfl

/-- The items of an array, from the first one on. -/
theorem reads_items {items : List Mp} (h : ∀ v ∈ items, Reads v) {v : Mp} {vs : List Mp}
    (hitems : items = v :: vs) (stack : List (Nat × List Mp)) (read : List Mp) {bytes : Bytes}
    (hencode : encodeItems items = .ok bytes)
    (hdepth : stack.length + 1 + Mp.depthItems items ≤ 1023) (rest : Bytes) :
    decoder.runFrom (.head ((vs.length, read) :: stack)) (bytes ++ rest) =
      decoder.runFrom (finish stack (.array (read.reverse ++ items))) rest := by
  induction items generalizing v vs read bytes with
  | nil => cases hitems
  | cons w ws ih =>
      cases hitems
      rw [encodeItems] at hencode
      cases hfirst : encode w with
      | error e => rw [hfirst] at hencode; cases hencode
      | ok first =>
          rw [hfirst] at hencode
          cases hothers : encodeItems ws with
          | error e => rw [hothers] at hencode; cases hencode
          | ok others =>
              rw [hothers] at hencode
              cases hencode
              rw [Mp.depthItems] at hdepth
              have hread := h w List.mem_cons_self ((ws.length, read) :: stack) first
                (others ++ rest) hfirst (by rw [List.length_cons]; omega)
              rw [List.append_assoc, hread]
              cases ws with
              | nil =>
                  cases hothers
                  rfl
              | cons u us =>
                  have hmore : finish (((u :: us).length, read) :: stack) w =
                      .head ((us.length, w :: read) :: stack) := rfl
                  rw [hmore, ih (fun v hv => h v (List.mem_cons_of_mem _ hv)) rfl (w :: read)
                    hothers (by omega), List.reverse_cons, List.append_assoc,
                    List.singleton_append]

/-- The decoder reads back what the encoder writes. -/
theorem reads_encode (v : Mp) : Reads v := by
  induction v with
  | nil =>
      intro stack bytes rest hencode hdepth
      cases hencode
      rw [List.singleton_append, runFrom_marker, onMarker, if_neg (by omega)]
      rfl
  | boolean b =>
      intro stack bytes rest hencode hdepth
      cases hencode
      rw [List.singleton_append, runFrom_marker, onMarker, if_neg (by omega)]
      cases b <;> rfl
  | integer n =>
      intro stack bytes rest hencode hdepth
      rw [encode] at hencode
      split at hencode
      · next hsmall =>
          cases hencode
          have hbyte : (UInt8.ofNat n.val.toNat).toNat = n.val.toNat := by
            rw [UInt8.toNat_ofNat', Nat.mod_eq_of_lt (by omega)]
          rw [List.singleton_append, runFrom_marker, onMarker, if_neg (by omega), hbyte,
            dif_pos (by omega)]
          congr 2
          refine congrArg Mp.integer (Ranged.ext_val ?_)
          dsimp only
          omega
      · cases hencode
  | array items ih =>
      intro stack bytes rest hencode hdepth
      rw [encode] at hencode
      split at hencode
      · next hshort =>
          cases hitems : encodeItems items with
          | error e => rw [hitems] at hencode; cases hencode
          | ok body =>
              rw [hitems] at hencode
              cases hencode
              rw [Mp.depth] at hdepth
              have hbyte : (UInt8.ofNat (0x90 + items.length)).toNat = 0x90 + items.length := by
                rw [UInt8.toNat_ofNat', Nat.mod_eq_of_lt (by omega)]
              rw [List.cons_append, runFrom_marker, onMarker, if_neg (by omega), hbyte,
                dif_neg (by omega), if_neg (by omega), if_neg (by omega), if_neg (by omega)]
              cases items with
              | nil =>
                  cases hitems
                  rfl
              | cons u us =>
                  have hcount : 0x90 + (u :: us).length - 0x91 = us.length := by
                    rw [List.length_cons]
                    omega
                  rw [if_neg (by rw [List.length_cons]; omega),
                    if_pos (by rw [List.length_cons] at hshort ⊢; omega), hcount]
                  exact reads_items ih rfl stack [] hitems (by omega) rest
      · cases hencode
  | f32 f => intro stack bytes rest hencode; cases hencode
  | f64 f => intro stack bytes rest hencode; cases hencode
  | string s => intro stack bytes rest hencode; cases hencode
  | binary b => intro stack bytes rest hencode; cases hencode
  | map entries ih => intro stack bytes rest hencode; cases hencode
  | ext ty data => intro stack bytes rest hencode; cases hencode

/-- What the codec writes is read back, up to 1023 arrays deep. -/
theorem codec_roundTrips : codec.RoundTrips 1023 where
  decode_encode v bytes hencode hdepth := by
    have hread := reads_encode v [] bytes [] hencode (by rw [List.length_nil]; omega)
    rw [List.append_nil] at hread
    exact hread

end VgiCbor.FixMsgpack
