import VgiCbor.Lib.Frames
import VgiCbor.Wasm.HeaderLines

/-!
# The wire between the worker and the browser

In the browser a request leaves the worker as a blob: `encodeRequest` writes it and the
JavaScript library reads it; the library writes the response as a blob that `decodeResponse`
reads.  Both blobs are numbers of four bytes and strings with their length in front, and what
one side writes the other reads (`decodeRequest_encodeRequest`, `response_read_back`).
-/

namespace VgiCbor.Wasm

open Frames

/-! ## The worker's side of the wire -/

/-- Positions of the worker have 32 bits. -/
def USIZE : Nat := 0x100000000

/-- A string behind its length. -/
def put (b : Bytes) : Bytes := sized 4 b

def encodeRequest (m u : String) (h : List (String × Bytes)) (body : Bytes) : Bytes :=
  put (utf8 m) ++ put (utf8 u) ++ toLe 4 h.length ++
    h.flatMap (fun header => put (utf8 header.1) ++ put header.2) ++ put body

/-- What ends the reading of a response: an error with its text, or a panic. -/
inductive Stop where
  | failed (message : String)
  | panic (message : String)
  deriving DecidableEq

/-- `raw.get(start..stop).ok_or("short read")` -/
def getRange (raw : Bytes) (start stop : Nat) : Except Stop Bytes :=
  if start ≤ stop ∧ stop ≤ raw.length then .ok (load raw start (stop - start))
  else .error (.failed "short read")

/-- The next `n` bytes; the sum of positions wraps around. -/
def Cur.advance (n : Nat) : Reader Stop Bytes := fun raw pos => do
  let e := (pos + n) % USIZE
  let b ← getRange raw pos e
  return (b, e)

def Cur.u32 : Reader Stop Nat := do
  let b ← Cur.advance 4
  return ofLe b

def Cur.bytes : Reader Stop Bytes := do
  let n ← Cur.u32
  Cur.advance n

/-- The text of the error for bytes that are not UTF-8 comes from outside. -/
def Cur.str (utf8Error : Bytes → String) : Reader Stop String := do
  let b ← Cur.bytes
  match String.fromUTF8? ⟨b.toArray⟩ with
  | some s => return s
  | none => throw (.failed (utf8Error b))

/-- Bytes of an element of the vector of headers: two strings of three words. -/
def HEADER_SIZE : Nat := 24

/-- `Vec::with_capacity(n)` -/
def withCapacity (n : Nat) : Reader Stop Unit :=
  if n * HEADER_SIZE ≤ 0x7fffffff then return () else throw (.panic "capacity overflow")

def Cur.header (utf8Error : Bytes → String) : Reader Stop (String × String) := do
  let k ← Cur.str utf8Error
  let v ← Cur.str utf8Error
  return (k, v)

/-- A response: its status, its headers and its body. -/
abbrev Response := Nat × List (String × String) × Bytes

def response (utf8Error : Bytes → String) : Reader Stop Response := do
  let status ← Cur.u32
  let n ← Cur.u32
  withCapacity n
  let hs ← (Cur.header utf8Error).times n
  let body ← Cur.bytes
  return (status % 0x10000, hs, body)

def decodeResponse (utf8Error : Bytes → String) (raw : Bytes) : Except Stop Response :=
  (response utf8Error raw 0).map Prod.fst

/-! ## The library's side of the wire -/

/-- `dv.getUint32(off, true)` -/
def Js.u32 : Reader String Nat := fun buf off =>
  if off + 4 ≤ buf.length then .ok (ofLe (load buf off 4), off + 4) else .error "RangeError"

/-- `subarray` stops at the end of the buffer. -/
def Js.bytes : Reader String Bytes := do
  let n ← Js.u32
  fun buf off => .ok (load buf off n, off + n)

/-- `new TextDecoder().decode(bytes())` -/
def Js.str (textDecode : Bytes → String) : Reader String String := do
  let b ← Js.bytes
  return textDecode b

def Js.header (textDecode : Bytes → String) : Reader String (String × String) := do
  let k ← Js.str textDecode
  let v ← Js.str textDecode
  return (k, v)

structure JsRequest where
  method : String
  url : String
  headers : List (String × String)
  body : Bytes

def request (textDecode : Bytes → String) : Reader String JsRequest := do
  let method ← Js.str textDecode
  let url ← Js.str textDecode
  let n ← Js.u32
  let headers ← (Js.header textDecode).times n
  let body ← Js.bytes
  return ⟨method, url, headers, body⟩

def decodeRequest (textDecode : Bytes → String) (buf : Bytes) : Except String JsRequest :=
  (request textDecode buf 0).map Prod.fst

/-- The pieces of a response in the order in which they are written. -/
def responsePieces (status : Nat) (hs : List (String × String)) (body : Bytes) : List Bytes :=
  let parts := hs.flatMap fun kv => [utf8 kv.1, utf8 kv.2]
  [toLe 4 status, toLe 4 hs.length] ++ parts.flatMap (fun p => [toLe 4 p.length, p]) ++
    [toLe 4 body.length, body]

/-- The length that is allotted to a response. -/
def responseTotal (hs : List (String × String)) (body : Bytes) : Nat :=
  hs.foldl (fun total kv => total + (8 + (utf8 kv.1).length + (utf8 kv.2).length)) 8 +
    (4 + body.length)

/-- A buffer of zeros in which every piece is written at its offset; `none` is a range
error. -/
def encodeResponse (status : Nat) (rawHeaders : Option String) (body : Bytes) : Option Bytes :=
  let hs := headersOf rawHeaders
  fill (List.replicate (responseTotal hs body) 0) 0 (responsePieces status hs body)

/-! ## Requests are read as they were written -/

theorem ofLe_toLe_four {n : Nat} (h : n < USIZE) : ofLe (toLe 4 n) = n := by
  rw [ofLe_toLe]
  exact Nat.mod_eq_of_lt h

section Js

variable {room : Nat}

theorem reads_js_u32 {n : Nat} (h : n < USIZE) : Reads room Js.u32 (toLe 4 n) n := by
  intro front rest _
  have hload := load_middle front (toLe 4 n) rest
  rw [toLe_length] at hload
  rw [Js.u32, if_pos (by simp), hload, ofLe_toLe_four h, List.length_append, toLe_length]

theorem reads_js_bytes {b : Bytes} (h : b.length < USIZE) : Reads room Js.bytes (put b) b := by
  apply (reads_js_u32 h).bind
  intro front rest _
  dsimp only
  rw [load_middle, List.length_append]

variable (textDecode : Bytes → String)

theorem reads_js_str {b : Bytes} (h : b.length < USIZE) :
    Reads room (Js.str textDecode) (put b) (textDecode b) :=
  (reads_js_bytes h).andThen rfl

/-- The strings of a header have lengths of four bytes. -/
def HeaderFits (header : String × Bytes) : Prop :=
  (utf8 header.1).length < USIZE ∧ header.2.length < USIZE

/-- The lengths of the parts of a request are written in four bytes. -/
structure RequestFits (m u : String) (h : List (String × Bytes)) (body : Bytes) : Prop where
  method : (utf8 m).length < USIZE
  uri : (utf8 u).length < USIZE
  count : h.length < USIZE
  headers : ∀ header ∈ h, HeaderFits header
  body : body.length < USIZE

/-- A header as the library reads it. -/
def jsHeader (header : String × Bytes) : String × String :=
  (textDecode (utf8 header.1), textDecode header.2)

theorem reads_js_header {header : String × Bytes} (h : HeaderFits header) :
    Reads room (Js.header textDecode) (put (utf8 header.1) ++ put header.2)
      (jsHeader textDecode header) :=
  (reads_js_str textDecode h.1).bind ((reads_js_str textDecode h.2).andThen rfl)

theorem reads_js_headers {h : List (String × Bytes)} (hfits : ∀ header ∈ h, HeaderFits header) :
    Reads room ((Js.header textDecode).times h.length)
      (h.flatMap fun header => put (utf8 header.1) ++ put header.2)
      (h.map (jsHeader textDecode)) := by
  have htimes := @Reads.times _ _ room (Js.header textDecode)
    (h.map fun header => put (utf8 header.1) ++ put header.2) (h.map (jsHeader textDecode)) (by
      rw [List.forall₂_map_left_iff, List.forall₂_map_right_iff, List.forall₂_same]
      exact fun header hh => reads_js_header textDecode (hfits header hh))
  rwa [List.length_map, ← List.flatMap_def] at htimes

/-- The library reads the method, the address, the headers and the body that the worker
wrote. -/
theorem decodeRequest_encodeRequest {m u : String} {h : List (String × Bytes)} {body : Bytes}
    (hfits : RequestFits m u h body) :
    decodeRequest textDecode (encodeRequest m u h body) =
      .ok ⟨textDecode (utf8 m), textDecode (utf8 u), h.map (jsHeader textDecode), body⟩ := by
  have hread : Reads (encodeRequest m u h body).length (request textDecode)
      (encodeRequest m u h body)
      ⟨textDecode (utf8 m), textDecode (utf8 u), h.map (jsHeader textDecode), body⟩ := by
    rw [encodeRequest]
    simp only [List.append_assoc]
    apply (reads_js_str textDecode hfits.method).bind
    apply (reads_js_str textDecode hfits.uri).bind
    apply (reads_js_u32 hfits.count).bind
    apply (reads_js_headers textDecode hfits.headers).bind
    exact (reads_js_bytes hfits.body).andThen rfl
  have hwhole := hread [] [] (by simp)
  simp only [List.nil_append, List.append_nil, List.length_nil] at hwhole
  rw [decodeRequest, hwhole]
  rfl

end Js

/-! ## Responses are read as they were written -/

/-- A response on the wire: a status, a number of headers, the headers and the body.  Every
string stands behind its length. -/
def responseBlob (status : Nat) (hs : List (String × String)) (body : Bytes) : Bytes :=
  toLe 4 status ++ (toLe 4 hs.length ++
    (hs.flatMap (fun kv => put (utf8 kv.1) ++ put (utf8 kv.2)) ++ put body))

theorem responsePieces_flatten (status : Nat) (hs : List (String × String)) (body : Bytes) :
    (responsePieces status hs body).flatten = responseBlob status hs body := by
  have hparts : ((hs.flatMap fun kv => [utf8 kv.1, utf8 kv.2]).flatMap
      fun p => [toLe 4 p.length, p]).flatten =
        hs.flatMap fun kv => put (utf8 kv.1) ++ put (utf8 kv.2) := by
    induction hs with
    | nil => rfl
    | cons kv hs ih => simp [ih, put, sized]
  simp only [responsePieces, responseBlob, List.flatten_append, hparts]
  simp [put, sized]

theorem responseTotal_eq (status : Nat) (hs : List (String × String)) (body : Bytes) :
    responseTotal hs body = (responseBlob status hs body).length := by
  have htotal : ∀ (hs : List (String × String)) (total : Nat),
      hs.foldl (fun total kv => total + (8 + (utf8 kv.1).length + (utf8 kv.2).length)) total =
        total + (hs.flatMap fun kv => put (utf8 kv.1) ++ put (utf8 kv.2)).length := by
    intro hs
    induction hs with
    | nil => exact fun _ => rfl
    | cons kv hs ih =>
        intro total
        rw [List.foldl_cons, ih, List.flatMap_cons, List.length_append, List.length_append, put, put,
          sized_length, sized_length]
        omega
  rw [responseTotal, htotal, responseBlob]
  simp only [List.length_append, toLe_length, put, sized_length]
  omega

/-- The pieces fill the buffer exactly: no offset is out of range, and no byte of it is left
over. -/
theorem encodeResponse_eq (status : Nat) (rawHeaders : Option String) (body : Bytes) :
    encodeResponse status rawHeaders body =
      some (responseBlob status (headersOf rawHeaders) body) := by
  have hroom : (responsePieces status (headersOf rawHeaders) body).flatten.length =
      (List.replicate (responseTotal (headersOf rawHeaders) body) (0 : UInt8)).length := by
    rw [responsePieces_flatten, List.length_replicate, responseTotal_eq status]
  have hfill := fill_eq [] _ hroom
  rw [List.nil_append, List.length_nil, List.nil_append, responsePieces_flatten] at hfill
  exact hfill

section Rust

variable {room : Nat} (utf8Error : Bytes → String)

/-- The worker's memory has less than 2 GiB for a value. -/
def ROOM : Nat := 0x7fffffff

theorem reads_advance (b : Bytes) : Reads ROOM (Cur.advance b.length) b b := by
  intro front rest hroom
  have hlen : (front.length + b.length) % USIZE = front.length + b.length := by
    simp only [List.length_append, ROOM] at hroom
    exact Nat.mod_eq_of_lt (by simp only [USIZE]; omega)
  have hrange : getRange (front ++ b ++ rest) front.length (front.length + b.length) = .ok b := by
    rw [getRange, if_pos (by simp), Nat.add_sub_cancel_left, load_middle]
  simp only [Cur.advance]
  rw [hlen, hrange, List.length_append]
  rfl

theorem framed_advance {b : Bytes} (h : b.length < USIZE) :
    Framed ROOM (.failed "short read") (Cur.advance b.length) b b where
  reads := reads_advance b
  cut front k hk hroom := by
    have hrange : getRange (front ++ b.take k) front.length ((front.length + b.length) % USIZE) =
        .error (.failed "short read") := by
      -- the position behind is past the end, or wraps around to one in front
      rw [getRange, if_neg]
      simp only [List.length_append, List.length_take, ROOM] at hroom ⊢
      simp only [USIZE] at h ⊢
      omega
    simp only [Cur.advance]
    rw [hrange]
    rfl

theorem framed_u32 {n : Nat} (h : n < USIZE) :
    Framed ROOM (.failed "short read") Cur.u32 (toLe 4 n) n := by
  have hadvance := framed_advance (b := toLe 4 n) (by simp [USIZE])
  rw [toLe_length] at hadvance
  exact hadvance.andThen (by rw [ofLe_toLe_four h])

theorem framed_bytes {b : Bytes} (h : b.length < USIZE) :
    Framed ROOM (.failed "short read") Cur.bytes (put b) b :=
  (framed_u32 h).bind (framed_advance h)

theorem fromUTF8_utf8 (s : String) : String.fromUTF8? ⟨(utf8 s).toArray⟩ = some s := by
  have hbytes : (⟨(utf8 s).toArray⟩ : ByteArray) = s.toByteArray := by simp [utf8]
  rw [hbytes, String.fromUTF8?, dif_pos s.isValidUTF8]
  rfl

theorem framed_str {s : String} (h : (utf8 s).length < USIZE) :
    Framed ROOM (.failed "short read") (Cur.str utf8Error) (put (utf8 s)) s :=
  (framed_bytes h).andThen (by rw [fromUTF8_utf8])

/-- A response that the library can hand over: its status has two bytes on the wire, its blob
has room in the memory, and its headers have room in a vector. -/
structure ResponseFits (status : Nat) (hs : List (String × String)) (body : Bytes) : Prop where
  blob : (responseBlob status hs body).length ≤ ROOM
  status : status < 0x10000
  count : hs.length * HEADER_SIZE ≤ 0x7fffffff

theorem ResponseFits.body_lt {status : Nat} {hs : List (String × String)} {body : Bytes}
    (h : ResponseFits status hs body) : body.length < USIZE := by
  have hblob := h.blob
  simp only [responseBlob, List.length_append, put, sized_length, ROOM] at hblob
  simp only [USIZE]
  omega

theorem ResponseFits.header_lt {status : Nat} {hs : List (String × String)} {body : Bytes}
    (h : ResponseFits status hs body) {kv : String × String} (hkv : kv ∈ hs) :
    (utf8 kv.1).length < USIZE ∧ (utf8 kv.2).length < USIZE := by
  have hblob := h.blob
  have hle := (List.sublist_flatten_of_mem (List.mem_map_of_mem
    (f := fun kv : String × String => put (utf8 kv.1) ++ put (utf8 kv.2)) hkv)).length_le
  rw [← List.flatMap_def] at hle
  simp only [responseBlob, List.length_append, put, sized_length, ROOM] at hblob hle
  simp only [USIZE]
  omega

theorem framed_headers {hs : List (String × String)}
    (h : ∀ kv ∈ hs, (utf8 kv.1).length < USIZE ∧ (utf8 kv.2).length < USIZE) :
    Framed ROOM (.failed "short read") ((Cur.header utf8Error).times hs.length)
      (hs.flatMap fun kv => put (utf8 kv.1) ++ put (utf8 kv.2)) hs := by
  rw [List.flatMap_def]
  apply Framed.times
  rw [List.forall₂_map_left_iff, List.forall₂_same]
  intro kv hkv
  exact (framed_str utf8Error (h kv hkv).1).bind
    ((framed_str utf8Error (h kv hkv).2).andThen rfl)

theorem framed_response {status : Nat} {hs : List (String × String)} {body : Bytes}
    (h : ResponseFits status hs body) :
    Framed ROOM (.failed "short read") (response utf8Error) (responseBlob status hs body)
      (status, hs, body) := by
  have hcount : hs.length < USIZE := by
    have hcount := h.count
    simp only [HEADER_SIZE] at hcount
    simp only [USIZE]
    omega
  have hstatus : status < USIZE := Nat.lt_of_lt_of_le h.status (by simp [USIZE])
  have hcapacity : withCapacity hs.length = Pure.pure () := if_pos h.count
  apply (framed_u32 hstatus).bind
  apply (framed_u32 hcount).bind
  rw [hcapacity, pure_bind]
  apply (framed_headers utf8Error fun kv hkv => h.header_lt hkv).bind
  exact (framed_bytes h.body_lt).andThen (by rw [Nat.mod_eq_of_lt h.status])

end Rust

/-- What the library writes for a response is read by the worker as its status, its headers
and its body, and every proper part of it is refused as too short. -/
theorem response_read_back (utf8Error : Bytes → String) {status : Nat}
    {hs : List (String × String)} {body : Bytes} (hheaders : ∀ header ∈ hs, IsHeader header)
    (hfits : ResponseFits status hs body) :
    ∃ blob, encodeResponse status (some (String.ofList (hs.flatMap headerLine))) body = some blob ∧
      decodeResponse utf8Error blob = .ok (status, hs, body) ∧
      ∀ k < blob.length, decodeResponse utf8Error (blob.take k) = .error (.failed "short read") := by
  obtain ⟨hwhole, hcut⟩ := (framed_response utf8Error hfits).message hfits.blob
  refine ⟨responseBlob status hs body, ?_, ?_, ?_⟩
  · rw [encodeResponse_eq, headersOf_lines hheaders]
  · rw [decodeResponse, hwhole]
    rfl
  · intro k hk
    rw [decodeResponse, hcut k hk]
    rfl

/-- A range of an object, with bytes that are no text. -/
theorem response_read_back_range :
    ∃ blob, encodeResponse 206
        (some (String.ofList ([("content-range", "bytes 0-3/9")].flatMap headerLine)))
        [0xc1, 0x00, 0xff, 0x7f] = some blob ∧
      decodeResponse (fun _ => "invalid utf-8") blob =
        .ok (206, [("content-range", "bytes 0-3/9")], [0xc1, 0x00, 0xff, 0x7f]) ∧
      ∀ k < blob.length, decodeResponse (fun _ => "invalid utf-8") (blob.take k) =
        .error (.failed "short read") :=
  response_read_back _ (fun header hheader => by
      rw [List.mem_singleton.1 hheader]
      exact ⟨by simp, by simp [isJsSpace], by simp [isBreak], by simp [isJsSpace], by simp [isJsSpace]⟩)
    ⟨by decide, by decide, by decide⟩

end VgiCbor.Wasm
