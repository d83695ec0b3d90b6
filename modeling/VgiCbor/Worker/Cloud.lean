import VgiCbor.Lib.IpAddress
import VgiCbor.Core.Value

/-!
# Remote locations

`buildStore` makes the object store for a remote URL.  Before it does, an `http(s)`
host is checked against the internal networks, which a URL in a query must not reach.
The classifier knows every internal network, but the host of an IPv6 URL is rendered in
brackets, where the classifier never sees it.
-/

namespace VgiCbor.Cloud

open IpAddress

/-- The host of a parsed URL: a name, or an address literal. -/
inductive Host where
  | domain (name : String)
  | ip (addr : IpAddr)

/-- A parsed URL, as far as the worker looks at it.  `text` is the whole of it, in the
parser's spelling. -/
structure Url where
  scheme : String
  host : Option Host
  text : String

/-- What the process runs on: the target it was compiled for, whether
`VGI_CBOR_ALLOW_INTERNAL_HOSTS` is set, how an IPv6 address is written, the resolver,
and the secrets by scope and type. -/
structure Environment where
  wasm32 : Bool
  allowInternalHosts : Bool
  ipv6Text : Ipv6Addr → String
  resolve : String → Option (List IpAddr)
  forScopeOfType : String → String → Option (List (String × String))

/-- `Url::host_str`: an IPv6 host stands in brackets.  In this form it is no address literal
any more. -/
def hostStr (env : Environment) (url : Url) : Option String :=
  url.host.map fun
    | .domain name => name
    | .ip (.v4 addr) => String.ofList addr.text
    | .ip (.v6 addr) => "[" ++ env.ipv6Text addr ++ "]"

/-! ## The internal networks -/

/-- `is_internal_ip` of an IPv4 address. -/
def isInternalV4 (v4 : Ipv4Addr) : Bool :=
  v4.isLoopback || v4.isPrivate || v4.isLinkLocal || v4.isUnspecified || v4.isBroadcast ||
    v4.a == 0 ||
    -- Carrier-grade NAT, 100.64.0.0/10.
    (v4.a == 100 && (v4.b &&& 0xc0) == 64)

/-- Whether an address is on a network the worker should not be tricked into reaching.  An
IPv4-mapped address is classified as the address it embeds. -/
def isInternalIp : IpAddr → Bool
  | .v4 v4 => isInternalV4 v4
  | .v6 v6 =>
      v6.isLoopback || v6.isUnspecified ||
        -- Unique-local fc00::/7 and link-local fe80::/10.
        (v6.s0 &&& 0xfe00) == 0xfc00 || (v6.s0 &&& 0xffc0) == 0xfe80 ||
        -- IPv4-mapped: unwrap and check again.
        v6.toIpv4Mapped.any isInternalV4

/-- The IPv4 networks that are internal: loopback, unspecified, the three private ones,
link-local and carrier-grade NAT. -/
def internalV4 : List Block :=
  [⟨0x7f000000, 24⟩, ⟨0, 0⟩, ⟨0x0a000000, 24⟩, ⟨0xac100000, 20⟩, ⟨0xc0a80000, 16⟩,
    ⟨0xa9fe0000, 16⟩, ⟨0x64400000, 22⟩]

/-- The IPv6 networks that are internal: loopback, unspecified, unique-local and
link-local. -/
def internalV6 : List Block :=
  [⟨1, 0⟩, ⟨0, 0⟩, ⟨0xfc00 * 2 ^ 112, 121⟩, ⟨0xfe80 * 2 ^ 112, 118⟩]

def mappedV4 : Block := ⟨0xffff * 2 ^ 32, 32⟩

/-- The address is on an internal network, possibly as an IPv4-mapped one.  This is said by
blocks of the address space, and not by octets as in the code. -/
def Internal : IpAddr → Prop
  | .v4 v4 => ∃ block ∈ internalV4, block.Contains v4.toNat
  | .v6 v6 =>
      (∃ block ∈ internalV6, block.Contains v6.toNat) ∨
        (mappedV4.Contains v6.toNat ∧ ∃ block ∈ internalV4, block.Contains (v6.toNat % 2 ^ 32))

theorem and_c0 (b : UInt8) : (b &&& 0xc0) = 64 ↔ b.toNat / 64 = 1 := by
  have hmask := and_high_bits (x := b.toNat) (n := 8) (k := 6) (by decide) b.toNat_lt
  rw [← UInt8.toNat_inj, UInt8.toNat_and]
  change b.toNat &&& 2 ^ 8 - 2 ^ 6 = 64 ↔ _
  omega

theorem and_fe00 (s : UInt16) : (s &&& 0xfe00) = 0xfc00 ↔ s.toNat / 512 = 126 := by
  have hmask := and_high_bits (x := s.toNat) (n := 16) (k := 9) (by decide) s.toNat_lt
  rw [← UInt16.toNat_inj, UInt16.toNat_and]
  change s.toNat &&& 2 ^ 16 - 2 ^ 9 = 64512 ↔ _
  omega

theorem and_ffc0 (s : UInt16) : (s &&& 0xffc0) = 0xfe80 ↔ s.toNat / 64 = 1018 := by
  have hmask := and_high_bits (x := s.toNat) (n := 16) (k := 6) (by decide) s.toNat_lt
  rw [← UInt16.toNat_inj, UInt16.toNat_and]
  change s.toNat &&& 2 ^ 16 - 2 ^ 6 = 65152 ↔ _
  omega

/-- The classes the classifier knows, in numbers: the blocks that the octets of an address
single out. -/
theorem isInternalV4_of_class {v4 : Ipv4Addr}
    (h : v4.a.toNat = 127 ∨ v4.a.toNat = 0 ∨ v4.a.toNat = 10 ∨
      (v4.a.toNat = 172 ∧ 16 ≤ v4.b.toNat ∧ v4.b.toNat ≤ 31) ∨
      (v4.a.toNat = 192 ∧ v4.b.toNat = 168) ∨ (v4.a.toNat = 169 ∧ v4.b.toNat = 254) ∨
      (v4.a.toNat = 100 ∧ v4.b.toNat / 64 = 1)) : isInternalV4 v4 = true := by
  simp only [isInternalV4, Ipv4Addr.isLoopback, Ipv4Addr.isPrivate, Ipv4Addr.isLinkLocal,
    Bool.or_eq_true, Bool.and_eq_true, beq_iff_eq, decide_eq_true_eq, and_c0]
  simp only [← UInt8.toNat_inj, UInt8.le_iff_toNat_le, UInt8.reduceToNat]
  rcases h with h | h | h | h | h | h | h <;> simp [h]

/-- Every internal IPv4 address is classified as internal, whichever block it is in. -/
theorem isInternalV4_of_block {v4 : Ipv4Addr} {block : Block} (hblock : block ∈ internalV4)
    (h : block.Contains v4.toNat) : isInternalV4 v4 = true := by
  apply isInternalV4_of_class
  have hb := v4.b.toNat_lt
  have hc := v4.c.toNat_lt
  have hd := v4.d.toNat_lt
  simp only [internalV4, List.mem_cons, List.not_mem_nil, or_false] at hblock
  simp only [Block.Contains, Ipv4Addr.toNat] at h ⊢
  rcases hblock with rfl | rfl | rfl | rfl | rfl | rfl | rfl <;> simp only at h <;> omega

/-- The number of an IPv6 address, segment by segment. -/
theorem toNat_segments (v6 : Ipv6Addr) :
    v6.toNat = ((((((v6.s0.toNat * 65536 + v6.s1.toNat) * 65536 + v6.s2.toNat) * 65536 +
      v6.s3.toNat) * 65536 + v6.s4.toNat) * 65536 + v6.s5.toNat) * 65536 + v6.s6.toNat) * 65536 +
        v6.s7.toNat := rfl

theorem digit_inj {n m : Nat} {s t : UInt16} (h : n * 65536 + s.toNat = m * 65536 + t.toNat) :
    n = m ∧ s = t := by
  have hs := s.toNat_lt
  have ht := t.toNat_lt
  refine ⟨by omega, UInt16.toNat_inj.1 (by omega)⟩

theorem eq_of_toNat {v6 w6 : Ipv6Addr} (h : v6.toNat = w6.toNat) : v6 = w6 := by
  obtain ⟨s0, s1, s2, s3, s4, s5, s6, s7⟩ := v6
  obtain ⟨t0, t1, t2, t3, t4, t5, t6, t7⟩ := w6
  obtain ⟨h, rfl⟩ := digit_inj h
  obtain ⟨h, rfl⟩ := digit_inj h
  obtain ⟨h, rfl⟩ := digit_inj h
  obtain ⟨h, rfl⟩ := digit_inj h
  obtain ⟨h, rfl⟩ := digit_inj h
  obtain ⟨h, rfl⟩ := digit_inj h
  obtain ⟨h, rfl⟩ := digit_inj h
  obtain rfl := UInt16.toNat_inj.1 h
  rfl

/-- The embedded address of an IPv4-mapped one is its low half. -/
theorem toIpv4Mapped_of_contains {v6 : Ipv6Addr} (h : mappedV4.Contains v6.toNat) :
    ∃ v4, v6.toIpv4Mapped = some v4 ∧ v4.toNat = v6.toNat % 2 ^ 32 := by
  have h1 := v6.s1.toNat_lt
  have h2 := v6.s2.toNat_lt
  have h3 := v6.s3.toNat_lt
  have h4 := v6.s4.toNat_lt
  have h5 := v6.s5.toNat_lt
  have h6 := v6.s6.toNat_lt
  have h7 := v6.s7.toNat_lt
  simp only [Block.Contains, mappedV4, toNat_segments] at h
  have hmapped : v6.s0 = 0 ∧ v6.s1 = 0 ∧ v6.s2 = 0 ∧ v6.s3 = 0 ∧ v6.s4 = 0 ∧ v6.s5 = 0xffff := by
    simp only [← UInt16.toNat_inj, UInt16.reduceToNat]
    omega
  refine ⟨_, if_pos hmapped, ?_⟩
  simp only [Ipv4Addr.toNat, UInt8.toNat_ofNat', toNat_segments]
  omega

/-- Every internal address is classified as internal, of either version. -/
theorem isInternalIp_of_internal {addr : IpAddr} (h : Internal addr) :
    isInternalIp addr = true := by
  cases addr with
  | v4 v4 =>
      obtain ⟨block, hblock, hcontains⟩ := h
      exact isInternalV4_of_block hblock hcontains
  | v6 v6 =>
      simp only [isInternalIp, Bool.or_eq_true, beq_iff_eq, and_fe00, and_ffc0]
      rcases h with ⟨block, hblock, hcontains⟩ | ⟨hmapped, block, hblock, hcontains⟩
      · have h1 := v6.s1.toNat_lt
        have h2 := v6.s2.toNat_lt
        have h3 := v6.s3.toNat_lt
        have h4 := v6.s4.toNat_lt
        have h5 := v6.s5.toNat_lt
        have h6 := v6.s6.toNat_lt
        have h7 := v6.s7.toNat_lt
        simp only [internalV6, List.mem_cons, List.not_mem_nil, or_false] at hblock
        rcases hblock with rfl | rfl | rfl | rfl <;>
          simp only [Block.Contains, Nat.pow_zero, Nat.div_one] at hcontains
        · have heq : v6 = ⟨0, 0, 0, 0, 0, 0, 0, 1⟩ := eq_of_toNat hcontains
          exact .inl (.inl (.inl (.inl (by rw [heq]; rfl))))
        · have heq : v6 = ⟨0, 0, 0, 0, 0, 0, 0, 0⟩ := eq_of_toNat hcontains
          exact .inl (.inl (.inl (.inr (by rw [heq]; rfl))))
        · rw [toNat_segments] at hcontains
          omega
        · rw [toNat_segments] at hcontains
          omega
      · obtain ⟨v4, hsome, hnat⟩ := toIpv4Mapped_of_contains hmapped
        rw [← hnat] at hcontains
        rw [hsome, Option.any_some, isInternalV4_of_block hblock hcontains]
        simp

/-! ## The guard -/

/-- Whether any address the host resolves to is internal; one that does not resolve is
left to the request itself. -/
def resolveAnyInternal (env : Environment) (host : String) : Bool :=
  if env.wasm32 then false
  else
    match env.resolve host with
    | some addrs => addrs.any isInternalIp
    | none => false

/-- Reject a remote host, an address literal or a name, that is internal.  In the browser
there is nothing to guard, and an environment variable turns the guard off. -/
def guardHost (env : Environment) (host : String) : Except String Unit :=
  if env.wasm32 then .ok ()
  else if env.allowInternalHosts then .ok ()
  else
    let internal :=
      match parseIp host.toList with
      | some ip => isInternalIp ip
      | none => resolveAnyInternal env host
    if internal then
      .error (s!"refusing to read from internal host '{host}' (loopback / link-local / " ++
        "private / cloud-metadata); set VGI_CBOR_ALLOW_INTERNAL_HOSTS=1 to override")
    else .ok ()

/-! ## Building a store -/

/-- The secret type a URL needs.  Only S3 URLs need one. -/
def secretTypeFor (url : Url) : Option String :=
  if url.scheme = "s3" ∨ url.scheme = "s3a" then some "s3" else none

/-- Unicode white space, as `str::trim` removes it. -/
def isWhitespace (c : Char) : Bool :=
  let n := c.toNat
  (9 ≤ n && n ≤ 13) || n == 0x20 || n == 0x85 || n == 0xa0 || n == 0x1680 ||
    (0x2000 ≤ n && n ≤ 0x200a) || n == 0x2028 || n == 0x2029 || n == 0x202f || n == 0x205f ||
    n == 0x3000

def trim (s : String) : String :=
  String.ofList ((((s.toList.dropWhile isWhitespace).reverse).dropWhile isWhitespace).reverse)

/-- A boolean option.  Case and blanks around it do not count. -/
def parseBool (s : String) : Option Bool :=
  let s := (trim s).toLower
  if s = "true" ∨ s = "1" ∨ s = "yes" ∨ s = "on" then some true
  else if s = "false" ∨ s = "0" ∨ s = "no" ∨ s = "off" then some false
  else none

/-- A bare `host[:port]` endpoint as a URL.  It gets `https` unless the secret turns that off. -/
def normalizeEndpoint (ep : String) (useSsl : Option Bool) : String :=
  if containsText ep "://" then ep
  else
    let scheme := if useSsl = some false then "http" else "https"
    s!"{scheme}://{ep}"

/-- The S3 options of the secret in scope.  Fields that are empty or missing give no option. -/
def s3Options (env : Environment) (url : Url) : List (String × String) :=
  match env.forScopeOfType url.text "s3" with
  | none => []
  | some fields =>
      let nonempty (f : String) := (fields.lookup f).filter (· ≠ "")
      let useSsl := (fields.lookup "use_ssl").bind parseBool
      let option (f key : String) := (nonempty f).toList.map fun v => (key, v)
      option "key_id" "aws_access_key_id" ++ option "secret" "aws_secret_access_key" ++
        option "session_token" "aws_session_token" ++ option "region" "aws_region" ++
        ((nonempty "endpoint").toList.map fun v => ("aws_endpoint", normalizeEndpoint v useSsl)) ++
        (if (nonempty "url_style").any fun v => v.toLower == "path" then
          [("aws_virtual_hosted_style_request", "false")] else []) ++
        (if useSsl = some false then [("aws_allow_http", "true")] else [])

/-- Build an object store for a URL.  `construct` makes the store once the options are
known. -/
def buildStore {α : Type} (env : Environment)
    (construct : Url → List (String × String) → Except String α) (url : Url)
    (overrides : List (String × String)) : Except String α :=
  let guarded :=
    if url.scheme = "http" ∨ url.scheme = "https" then
      match hostStr env url with
      | some host => guardHost env host
      | none => .ok ()
    else .ok ()
  match guarded with
  | .error e => .error e
  | .ok () =>
      let opts := if secretTypeFor url = some "s3" then s3Options env url else []
      construct url (opts ++ overrides)

/-- Write a whole object to a remote store; `http(s)` is read-only.  A store that is built
takes the body of the object. -/
def writeObject (env : Environment)
    (construct : Url → List (String × String) → Except String (List UInt8 → Except String Unit))
    (url : Url) (overrides : List (String × String)) (body : List UInt8) : Except String Unit :=
  if url.scheme = "http" ∨ url.scheme = "https" then
    .error s!"writing to '{url.scheme}://' is not supported; use s3://"
  else
    match buildStore env construct url overrides with
    | .error e => .error e
    | .ok put =>
        match put body with
        | .error e => .error s!"write {url.text}: {e}"
        | .ok () => .ok ()

/-! ## Paths -/

/-- A resolved path: a local file path, or the URL of a remote object.  A pattern is resolved
further, by listing. -/
inductive Location where
  | localPath (path : String)
  | remote (url : Url)

/-- `s.split_once(sep)`, character by character: what stands before the first separator, and
what stands behind it. -/
def splitOnce (sep : List Char) : List Char → Option (List Char × List Char)
  | [] => if sep.isEmpty then some ([], []) else none
  | c :: rest =>
      if sep.isPrefixOf (c :: rest) then some ([], (c :: rest).drop sep.length)
      else (splitOnce sep rest).map fun (before, behind) => (c :: before, behind)

/-- The bytes of an object key that are escaped: controls, delimiters of a URL, `%`, and
all that is not ASCII. -/
def escapedInKey (b : UInt8) : Bool :=
  b < 0x20 || 0x7f ≤ b || b == '%'.toNat.toUInt8 || b == '?'.toNat.toUInt8 ||
    b == '#'.toNat.toUInt8

def hexDigit (n : Nat) : Char := (Nat.digitChar n).toUpper

/-- Percent-encode an object key, byte by byte of its UTF-8 text. -/
def percentEncode (key : List Char) : List Char :=
  (String.ofList key).toUTF8.data.toList.flatMap fun b =>
    if escapedInKey b then ['%', hexDigit (b.toNat / 16), hexDigit (b.toNat % 16)]
    else [Char.ofNat b.toNat]

/-- The text of an S3 URL whose key is escaped.  The URL parser would take a `?` or a `#` of
the key for its own. -/
def encodeS3Url (scheme : String) (rest : List Char) : String :=
  let (bucket, key) := (splitOnce ['/'] rest).getD (rest, [])
  s!"{scheme}://{String.ofList bucket}/{String.ofList (percentEncode key)}"

def isSchemeChar (c : Char) : Bool := c.isAlphanum || c == '+' || c == '-' || c == '.'

/-- Classify a path as a local file or a remote object; `parseUrl` is the URL parser.  A path
without `://` is local, whatever else is in it. -/
def classify (parseUrl : String → Except String Url) (path : String) : Except String Location :=
  let parsed (text : String) : Except String Location :=
    match parseUrl text with
    | .ok url => .ok (.remote url)
    | .error e => .error s!"bad URL '{path}': {e}"
  match splitOnce "://".toList path.toList with
  | none => .ok (.localPath path)
  | some (scheme, rest) =>
      let lower := (String.ofList scheme).toLower
      if lower = "s3" ∨ lower = "s3a" then parsed (encodeS3Url lower rest)
      else if lower = "http" ∨ lower = "https" then parsed path
      else if !lower.isEmpty && lower.all isSchemeChar then
        .error (s!"unsupported URL scheme '{lower}://' for '{path}' (supported: s3://, " ++
          "http://, https://; local paths have no scheme)")
      else .ok (.localPath path)

/-- True when a path carries a glob metacharacter. -/
def isGlob (spec : String) : Bool := spec.toList.any fun c => c == '*' || c == '?' || c == '['

/-- A local path is the path that was given, so nothing in it is unescaped. -/
theorem classify_local {parseUrl : String → Except String Url} {path p : String}
    (h : classify parseUrl path = .ok (.localPath p)) : p = path := by
  have hparsed {text : String} (hurl : (match parseUrl text with
      | .ok url => .ok (.remote url)
      | .error e => .error s!"bad URL '{path}': {e}" : Except String Location) =
        .ok (.localPath p)) : False := by
    split at hurl <;> cases hurl
  unfold classify at h
  split at h
  · cases h
    rfl
  · simp only at h
    split_ifs at h
    · exact (hparsed h).elim
    · exact (hparsed h).elim
    · cases h
      rfl

/-- The URL is refused before any store is constructed: no constructor makes a difference. -/
def Refused (env : Environment) (url : Url) (overrides : List (String × String)) : Prop :=
  ∃ e, ∀ (α : Type) (construct : Url → List (String × String) → Except String α),
    buildStore env construct url overrides = .error e

/-- An `http(s)` URL is refused exactly when the guard refuses its host. -/
theorem refused_iff {env : Environment} {url : Url}
    (hscheme : url.scheme = "http" ∨ url.scheme = "https") {host : String}
    (hhost : hostStr env url = some host) (overrides : List (String × String)) :
    Refused env url overrides ↔ ∃ e, guardHost env host = .error e := by
  constructor
  · rintro ⟨e, hrefused⟩
    have hbuild := hrefused Unit fun _ _ => .ok ()
    simp only [buildStore, if_pos hscheme, hhost] at hbuild
    cases hguard : guardHost env host with
    | error e' => exact ⟨e', rfl⟩
    | ok u =>
        rw [hguard] at hbuild
        cases hbuild
  · rintro ⟨e, hguard⟩
    refine ⟨e, fun α construct => ?_⟩
    simp only [buildStore, if_pos hscheme, hhost, hguard]

/-- The guard looks an IPv4 host up in the classifier. -/
theorem guardHost_v4 {env : Environment} (hnative : env.wasm32 = false)
    (hunset : env.allowInternalHosts = false) (v4 : Ipv4Addr) :
    (∃ e, guardHost env (String.ofList v4.text) = .error e) ↔ isInternalV4 v4 = true := by
  have hparse : parseIp (String.ofList v4.text).toList = some (.v4 v4) := by
    rw [String.toList_ofList, parseIp_text]
  simp only [guardHost, hnative, hunset, hparse, isInternalIp]
  cases isInternalV4 v4 <;> simp

/-- A host in brackets is neither an address nor a name, and passes.  This is how the URL of
an IPv6 address spells its host. -/
theorem guardHost_bracketed {env : Environment} {s : String}
    (hresolve : env.resolve ("[" ++ s ++ "]") = none) :
    guardHost env ("[" ++ s ++ "]") = .ok () := by
  have hparse : parseIp ("[" ++ s ++ "]").toList = none := by
    rw [String.toList_append, String.toList_append]
    exact parseIp_bracketed _
  simp only [guardHost, hparse, resolveAnyInternal, hresolve]
  split_ifs <;> first | rfl | contradiction

/-- In the native build without the override, an `http(s)` URL whose host is an internal
address literal is refused exactly when the address is an IPv4 one. -/
theorem internal_literal_refused_iff (env : Environment) (hnative : env.wasm32 = false)
    (hunset : env.allowInternalHosts = false)
    (hresolve : ∀ s, env.resolve ("[" ++ s ++ "]") = none) (url : Url)
    (hscheme : url.scheme = "http" ∨ url.scheme = "https") (addr : IpAddr)
    (hhost : url.host = some (.ip addr)) (hinternal : Internal addr)
    (overrides : List (String × String)) :
    Refused env url overrides ↔ ∃ v4, addr = .v4 v4 := by
  cases addr with
  | v4 v4 =>
      have hstr : hostStr env url = some (String.ofList v4.text) := by
        rw [hostStr, hhost, Option.map_some]
      rw [refused_iff hscheme hstr, guardHost_v4 hnative hunset]
      exact ⟨fun _ => ⟨v4, rfl⟩, fun _ => isInternalIp_of_internal hinternal⟩
  | v6 v6 =>
      have hstr : hostStr env url = some ("[" ++ env.ipv6Text v6 ++ "]") := by
        rw [hostStr, hhost, Option.map_some]
      rw [refused_iff hscheme hstr, guardHost_bracketed (hresolve _)]
      constructor
      · rintro ⟨e, he⟩
        cases he
      · rintro ⟨v4, hv4⟩
        cases hv4

/-- A native worker without the override, whose resolver finds nothing. -/
def offline : Environment where
  wasm32 := false
  allowInternalHosts := false
  ipv6Text _ := "::1"
  resolve _ := none
  forScopeOfType _ _ := none

/-- `http://[::1]/` is let through to the constructor. -/
theorem loopback_v6_let_through :
    Internal (.v6 ⟨0, 0, 0, 0, 0, 0, 0, 1⟩) ∧
      buildStore offline (fun _ _ => .ok "store")
        ⟨"http", some (.ip (.v6 ⟨0, 0, 0, 0, 0, 0, 0, 1⟩)), "http://[::1]/"⟩ [] = .ok "store" := by
  refine ⟨.inl ⟨⟨1, 0⟩, by simp [internalV6], by decide⟩, by rfl⟩

theorem internal_literal_refused_metadata :
    Refused offline ⟨"http", some (.ip (.v4 ⟨169, 254, 169, 254⟩)),
      "http://169.254.169.254/latest/meta-data/"⟩ [] := by
  refine (internal_literal_refused_iff offline rfl rfl (fun _ => rfl) _ (.inl rfl) _ rfl ?_ []).2
    ⟨_, rfl⟩
  exact ⟨⟨0xa9fe0000, 16⟩, by simp [internalV4], by decide⟩

end VgiCbor.Cloud
