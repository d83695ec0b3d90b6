import VgiCbor.Lib.MachineInt
import VgiCbor.Wasm.HttpWire

/-!
# Calls through the browser

`call` places a request in the memory of the worker, the library takes it from there, has the
browser send it, and hands the response over in memory that it allots.  What the browser is
asked to send is the request, and what comes back is the browser's answer (`call_answers`).
-/

namespace VgiCbor.Wasm

open Frames MachineInt

/-- What is handed to `xhr.send`. -/
structure Sent where
  method : String
  url : String
  headers : List (String × String)
  body : Option Bytes

/-- What `xhr` holds once `send` has returned: the status, the text of the headers, and the
bytes of the body. -/
structure Answer where
  status : Nat
  rawHeaders : Option String
  response : Option Bytes
  deriving DecidableEq

/-- The browser: how it decodes a text, what it opens, which headers it takes, its answers
(`none` where it throws), and how memory is allotted: a pointer, or 0, and the memory
after. -/
structure Browser where
  textDecode : Bytes → String
  opens : String → String → Bool
  takesHeader : String × String → Bool
  send : Sent → Option Answer
  malloc : Bytes → Nat → Nat × Bytes

/-- `u8.slice(start, stop)`: a negative end counts from behind. -/
def jsSlice (memory : Bytes) (start : Nat) (stop : Int) : Bytes :=
  let final : Int := if stop < 0 then memory.length + stop else stop
  load memory start (final.toNat - start)

/-- Hand the response over: its bytes, then its address and its length. -/
def handOver (b : Browser) (memory resp : Bytes) (outPtrPtr outLenPtr : Nat) : Int × Bytes :=
  let (p, memory) := b.malloc memory resp.length
  if p = 0 then (-1, memory)
  else
    match store memory p resp with
    | none => (-1, memory)
    | some memory =>
        match store memory outPtrPtr (toLe 4 p) with
        | none => (-1, memory)
        | some memory =>
            match store memory outLenPtr (toLe 4 resp.length) with
            | none => (-1, memory)
            | some memory => (0, memory)

/-- `vgi_http_send`: the result and the memory after; whatever throws ends in -1.  Address and
length of the response go into two cells. -/
def vgiHttpSend (b : Browser) (memory : Bytes) (reqPtr : Nat) (reqLen : I32)
    (outPtrPtr outLenPtr : Nat) : Int × Bytes :=
  match decodeRequest b.textDecode (jsSlice memory reqPtr (reqPtr + reqLen.val)) with
  | .error _ => (-1, memory)
  | .ok r =>
      if b.opens r.method r.url then
        let sent : Sent := ⟨r.method, r.url, r.headers.filter b.takesHeader,
          if r.body.length = 0 then none else some r.body⟩
        match b.send sent with
        | none => (-1, memory)
        | some xhr =>
            match encodeResponse xhr.status xhr.rawHeaders (xhr.response.getD []) with
            | none => (-1, memory)
            | some resp => handOver b memory resp outPtrPtr outLenPtr
      else (-1, memory)

inductive HttpErrorKind where
  | request
  | connect
  | decode
  deriving DecidableEq

/-- What ends a call. -/
inductive HttpError where
  | err (kind : HttpErrorKind) (msg : String)
  | panic (message : String)
  deriving DecidableEq

/-- A request; the body of a streaming request is none. -/
structure HttpRequest where
  method : String
  uri : String
  headers : List (String × Bytes)
  body : Option Bytes

/-- The memory of the worker when it calls the library: where the request lies, and the
cells for the address and the length of the response. -/
structure Heap where
  memory : Bytes
  reqPtr : Nat
  outPtrPtr : Nat
  outLenPtr : Nat

section Call

variable {ρ : Type} (b : Browser) (place : Bytes → Heap) (utf8Error : Bytes → String)
  (builder : Response → Except String ρ)

/-- `decode_response`, then the response builder, which comes from outside. -/
def built (raw : Bytes) : Except HttpError ρ :=
  match decodeResponse utf8Error raw with
  | .error (.failed e) => .error (.err .decode e)
  | .error (.panic m) => .error (.panic m)
  | .ok r =>
      match builder r with
      | .ok response => .ok response
      | .error e => .error (.err .decode e)

/-- What comes of a call to the library: of its result and the memory it left. -/
def received (heap : Heap) (sent : Int × Bytes) : Except HttpError ρ :=
  let outPtr := ofLe (load sent.2 heap.outPtrPtr 4)
  if sent.1 ≠ 0 ∨ outPtr = 0 then .error (.err .connect "xhr failed (network or CORS)")
  else built utf8Error builder (load sent.2 outPtr (ofLe (load sent.2 heap.outLenPtr 4)))

/-- Place a request in the memory, hand it to the library and take what comes back. -/
def exchange (wire : Bytes) : Except HttpError ρ :=
  let heap := place wire
  received utf8Error builder heap
    (vgiHttpSend b heap.memory heap.reqPtr (I32.wrap wire.length) heap.outPtrPtr heap.outLenPtr)

def call (req : HttpRequest) : Except HttpError ρ :=
  match req.body with
  | none => .error (.err .request "streaming request body unsupported")
  | some body =>
      exchange b place utf8Error builder (encodeRequest req.method req.uri req.headers body)

/-- What the browser is asked to send for a request. -/
def sentFor (req : HttpRequest) (body : Bytes) : Sent where
  method := b.textDecode (utf8 req.method)
  url := b.textDecode (utf8 req.uri)
  headers := (req.headers.map (jsHeader b.textDecode)).filter b.takesHeader
  body := if body.length = 0 then none else some body

/-- The browser's answer to a request. -/
def answerTo (req : HttpRequest) (body : Bytes) : Option Answer :=
  let sent := sentFor b req body
  if b.opens sent.method sent.url then b.send sent else none

/-- The memory that was allotted for a response is within the memory and apart from the cells
for its address and its length. -/
structure Allotted (heap : Heap) (p n : Nat) (memory : Bytes) : Prop where
  nonnull : p ≠ 0
  room : p + n ≤ memory.length
  memory_le : memory.length ≤ USIZE
  ptr_room : heap.outPtrPtr + 4 ≤ memory.length
  len_room : heap.outLenPtr + 4 ≤ memory.length
  ptr_apart : heap.outPtrPtr + 4 ≤ p ∨ p + n ≤ heap.outPtrPtr
  len_apart : heap.outLenPtr + 4 ≤ p ∨ p + n ≤ heap.outLenPtr
  cells_apart : heap.outPtrPtr + 4 ≤ heap.outLenPtr ∨ heap.outLenPtr + 4 ≤ heap.outPtrPtr

/-- The response arrives in the memory, with its address and its length in the cells. -/
theorem handOver_allotted {heap : Heap} {memory memory' resp : Bytes} {p : Nat}
    (hmalloc : b.malloc memory resp.length = (p, memory'))
    (h : Allotted heap p resp.length memory') (hne : 0 < resp.length) :
    ∃ after, handOver b memory resp heap.outPtrPtr heap.outLenPtr = (0, after) ∧
      ofLe (load after heap.outPtrPtr 4) = p ∧
      load after p (ofLe (load after heap.outLenPtr 4)) = resp := by
  obtain ⟨first, hfirst, hlen⟩ := @store_some _ resp _ h.room
  obtain ⟨second, hsecond, hlen'⟩ := @store_some first (toLe 4 p) heap.outPtrPtr
    (by rw [hlen, toLe_length]; exact h.ptr_room)
  obtain ⟨after, hafter, -⟩ := @store_some second (toLe 4 resp.length) heap.outLenPtr
    (by rw [hlen', hlen, toLe_length]; exact h.len_room)
  have hroom := h.room
  have hmemory := h.memory_le
  have hsize := Nat.pos_of_ne_zero h.nonnull
  refine ⟨after, ?_, ?_, ?_⟩
  · simp only [handOver, hmalloc, if_neg h.nonnull, hfirst, hsecond, hafter]
  · have hload := load_store_same hsecond
    rw [toLe_length] at hload
    rw [load_store_disjoint hafter (by rw [toLe_length]; exact h.cells_apart), hload,
      ofLe_toLe_four (by omega)]
  · have hload := load_store_same hafter
    rw [toLe_length] at hload
    rw [hload, ofLe_toLe_four (by omega),
      load_store_disjoint hafter (by rw [toLe_length]; exact h.len_apart.symm),
      load_store_disjoint hsecond (by rw [toLe_length]; exact h.ptr_apart.symm),
      load_store_same hfirst]

/-- Without memory for the response the library reports a failure. -/
theorem handOver_null {memory memory' resp : Bytes} {outPtrPtr outLenPtr : Nat}
    (hmalloc : b.malloc memory resp.length = (0, memory')) :
    handOver b memory resp outPtrPtr outLenPtr = (-1, memory') := by
  simp only [handOver, hmalloc, if_pos]

/-- A request below 2 GiB has parts whose lengths fit. -/
theorem requestFits {m u : String} {h : List (String × Bytes)} {body : Bytes}
    (hwire : (encodeRequest m u h body).length ≤ ROOM) : RequestFits m u h body := by
  have hheaders : ∀ header ∈ h, (put (utf8 header.1) ++ put header.2).length ≤
      (h.flatMap fun header => put (utf8 header.1) ++ put header.2).length := by
    intro header hh
    rw [List.flatMap_def]
    exact (List.sublist_flatten_of_mem (List.mem_map_of_mem
      (f := fun header : String × Bytes => put (utf8 header.1) ++ put header.2) hh)).length_le
  have hcount : h.length ≤ (h.flatMap fun header => put (utf8 header.1) ++ put header.2).length := by
    rw [List.length_flatMap]
    have hsum := List.length_le_sum_of_one_le
      (h.map fun header => (put (utf8 header.1) ++ put header.2).length) (by
        intro n hn
        obtain ⟨header, -, rfl⟩ := List.mem_map.1 hn
        rw [List.length_append, put, sized_length]
        omega)
    rwa [List.length_map] at hsum
  simp only [encodeRequest, List.length_append, put, sized_length, toLe_length, ROOM] at hwire
  simp only [List.length_append, put, sized_length] at hheaders hcount
  constructor
  case headers =>
    intro header hh
    have hheader := hheaders header hh
    constructor <;> simp only [USIZE] <;> omega
  all_goals
    simp only [USIZE]
    omega

/-- The library sends the request that was placed in the memory, and hands over the answer.
This joins the two sides of the call. -/
theorem vgiHttpSend_eq {heap : Heap} {req : HttpRequest} {body : Bytes}
    (hwire : (encodeRequest req.method req.uri req.headers body).length ≤ ROOM)
    (hplaced : load heap.memory heap.reqPtr
        (encodeRequest req.method req.uri req.headers body).length =
      encodeRequest req.method req.uri req.headers body) :
    vgiHttpSend b heap.memory heap.reqPtr
        (I32.wrap (encodeRequest req.method req.uri req.headers body).length)
        heap.outPtrPtr heap.outLenPtr =
      match answerTo b req body with
      | none => (-1, heap.memory)
      | some xhr =>
          handOver b heap.memory
            (responseBlob xhr.status (headersOf xhr.rawHeaders) (xhr.response.getD []))
            heap.outPtrPtr heap.outLenPtr := by
  have hlen := I32.wrap_val_of_mem
    (n := (encodeRequest req.method req.uri req.headers body).length) (by omega)
    (by simp only [ROOM] at hwire; omega)
  have hslice : jsSlice heap.memory heap.reqPtr
      (heap.reqPtr + (I32.wrap (encodeRequest req.method req.uri req.headers body).length).val) =
        encodeRequest req.method req.uri req.headers body := by
    rw [hlen, jsSlice, if_neg (by omega)]
    rw [← Nat.cast_add, Int.toNat_natCast, Nat.add_sub_cancel_left, hplaced]
  rw [vgiHttpSend, hslice, decodeRequest_encodeRequest _ (requestFits hwire)]
  simp only [encodeResponse_eq]
  by_cases hopens : b.opens (sentFor b req body).method (sentFor b req body).url = true
  · rw [show answerTo b req body = b.send (sentFor b req body) from if_pos hopens]
    exact if_pos hopens
  · rw [show answerTo b req body = none from if_neg hopens]
    exact if_neg hopens

theorem received_failed (heap : Heap) (memory : Bytes) :
    received utf8Error builder heap (-1, memory) =
      .error (.err .connect "xhr failed (network or CORS)") := by
  rw [received, if_pos (Or.inl (show (-1 : Int) ≠ 0 by decide))]

theorem built_blob {status : Nat} {hs : List (String × String)} {body : Bytes}
    (hfits : ResponseFits status hs body) :
    built utf8Error builder (responseBlob status hs body) =
      match builder (status, hs, body) with
      | .ok response => .ok response
      | .error e => .error (.err .decode e) := by
  have hdecode : decodeResponse utf8Error (responseBlob status hs body) = .ok (status, hs, body) := by
    rw [decodeResponse, ((framed_response utf8Error hfits).message hfits.blob).1]
    rfl
  rw [built, hdecode]

theorem call_some {req : HttpRequest} {body : Bytes} (hbody : req.body = some body) :
    call b place utf8Error builder req =
      exchange b place utf8Error builder (encodeRequest req.method req.uri req.headers body) := by
  rw [call, hbody]

theorem exchange_eq {wire : Bytes} {sent : Int × Bytes}
    (h : vgiHttpSend b (place wire).memory (place wire).reqPtr (I32.wrap wire.length)
      (place wire).outPtrPtr (place wire).outLenPtr = sent) :
    exchange b place utf8Error builder wire = received utf8Error builder (place wire) sent := by
  rw [exchange, h]

/-- A call hands the library the request and gives back what the response builder makes of the
browser's answer: its status, its headers and its body.  Where the browser throws, or no memory is
left for the response, the call fails to connect. -/
theorem call_answers {req : HttpRequest} {body : Bytes} (hbody : req.body = some body)
    (hwire : (encodeRequest req.method req.uri req.headers body).length ≤ ROOM)
    (hplaced : ∀ wire, load (place wire).memory (place wire).reqPtr wire.length = wire) :
    (answerTo b req body = none →
      call b place utf8Error builder req =
        .error (.err .connect "xhr failed (network or CORS)")) ∧
    ∀ xhr, answerTo b req body = some xhr →
      ∀ heap, place (encodeRequest req.method req.uri req.headers body) = heap →
      ∀ hs, headersOf xhr.rawHeaders = hs →
      ∀ p memory, b.malloc heap.memory
          (responseBlob xhr.status hs (xhr.response.getD [])).length = (p, memory) →
        (p = 0 →
          call b place utf8Error builder req =
            .error (.err .connect "xhr failed (network or CORS)")) ∧
        (Allotted heap p (responseBlob xhr.status hs (xhr.response.getD [])).length memory →
          ResponseFits xhr.status hs (xhr.response.getD []) →
          call b place utf8Error builder req =
            match builder (xhr.status, hs, xhr.response.getD []) with
            | .ok response => .ok response
            | .error e => .error (.err .decode e)) := by
  have hsend := vgiHttpSend_eq b hwire (hplaced _)
  rw [call_some b place utf8Error builder hbody]
  constructor
  · intro hanswer
    rw [hanswer] at hsend
    rw [exchange_eq b place utf8Error builder hsend, received_failed]
  · rintro xhr hanswer heap rfl hs rfl p memory hmalloc
    rw [hanswer] at hsend
    constructor
    · rintro rfl
      rw [exchange_eq b place utf8Error builder (hsend.trans (handOver_null b hmalloc)),
        received_failed]
    · intro hallotted hfits
      have hne : 0 <
          (responseBlob xhr.status (headersOf xhr.rawHeaders) (xhr.response.getD [])).length := by
        simp only [responseBlob, List.length_append, toLe_length]
        omega
      obtain ⟨after, hafter, hptr, hraw⟩ := handOver_allotted b hmalloc hallotted hne
      rw [exchange_eq b place utf8Error builder (hsend.trans hafter), received,
        if_neg (by simp [hptr, hallotted.nonnull]), hptr, hraw, built_blob utf8Error builder hfits]

end Call

/-- A browser that takes every header but one, and allots memory behind the memory. -/
def rangeBrowser (answer : Answer) : Browser where
  textDecode b := (String.fromUTF8? ⟨b.toArray⟩).getD ""
  opens _ _ := true
  takesHeader header := header.1 != "host"
  send sent := if sent.headers.length = 1 ∧ sent.body = none then some answer else none
  malloc memory n := (memory.length, memory ++ List.replicate n 0)

/-- A request behind the cells for the response. -/
def behindCells (wire : Bytes) : Heap where
  memory := List.replicate 16 0 ++ wire
  reqPtr := 16
  outPtrPtr := 4
  outLenPtr := 8

def rangeRequest : HttpRequest where
  method := "GET"
  uri := "https://data.example/a.cbor"
  headers := [("host", utf8 "data.example"), ("range", utf8 "bytes=0-3")]
  body := some []

theorem call_answers_range :
    call (rangeBrowser ⟨206, some (String.ofList ([("etag", "1")].flatMap headerLine)),
        some [0xc1, 0x00]⟩) behindCells (fun _ => "invalid utf-8") (fun r => .ok r) rangeRequest =
      .ok (206, [("etag", "1")], [0xc1, 0x00]) := by
  have hlines : headersOf (some (String.ofList ([("etag", "1")].flatMap headerLine))) =
      [("etag", "1")] := headersOf_lines fun header hheader => by
    rw [List.mem_singleton.1 hheader]
    exact ⟨by simp, by simp [isJsSpace], by simp [isBreak], by simp [isJsSpace], by simp [isJsSpace]⟩
  have hanswer : answerTo (rangeBrowser
      ⟨206, some (String.ofList ([("etag", "1")].flatMap headerLine)), some [0xc1, 0x00]⟩)
      rangeRequest [] =
        some ⟨206, some (String.ofList ([("etag", "1")].flatMap headerLine)), some [0xc1, 0x00]⟩ := by
    decide +kernel
  exact ((@call_answers _ _ behindCells _ _ _ [] rfl (by decide +kernel) (fun wire => by
    simp [behindCells, load])).2 _ hanswer _ rfl _ hlines _ _ rfl).2
      ⟨by simp [behindCells], by simp, by decide +kernel, by decide +kernel, by decide +kernel,
        .inl (by simp [behindCells]), .inl (by simp [behindCells]), .inl (by decide)⟩
      ⟨by decide, by decide, by decide⟩

end VgiCbor.Wasm
