import VgiCbor.Lib.PercentText
import VgiCbor.Worker.ExportImport

/-!
# Remote patterns

A remote path whose key holds a glob metacharacter names the objects that match it.  The pattern
travels through a URL, so it is escaped on the way in and decoded again; the store lists only
what stands under the literal directory of the pattern; each object found is turned into a URL
of its own.  The locations of a COPY FROM are those of the listed objects that match, one for
each (`remote_glob`).  Matching ignores the case of ASCII letters and listing does not, so an
object may match the pattern and yet not be found.
-/

namespace VgiCbor.CopyDestination

open Cloud PercentText

/-! ## Keys -/

/-- How a pattern is matched (`glob::MatchOptions`): whether case counts, and whether
wildcards match a separator or a leading dot. -/
structure MatchOptions where
  caseSensitive : Bool
  requireLiteralSeparator : Bool
  requireLiteralLeadingDot : Bool

/-- The derived default; the constructor `new` of the library would be case-sensitive. -/
def MatchOptions.default : MatchOptions where
  caseSensitive := false
  requireLiteralSeparator := false
  requireLiteralLeadingDot := false

/-- What the URL, pattern and object store libraries do.  None of them is in the repository. -/
structure Remote where
  parseUrl : String → Except String Url
  path : Url → String
  Pattern : Type
  newPattern : String → Except String Pattern
  matchesWith : Pattern → String → MatchOptions → Bool
  /-- The bytes that are escaped in the segments of a path of the object store. -/
  escapedInPath : UInt8 → Bool

/-- A key matches a pattern: no wildcard but `**` matches a `/`, and case does not count, by
the default of the options. -/
def globMatches (remote : Remote) (pattern : remote.Pattern) (key : String) : Bool :=
  remote.matchesWith pattern key { MatchOptions.default with requireLiteralSeparator := true }

/-- Replace percent escapes, and read the bytes as text.  Bytes that are no UTF-8 become
replacement characters. -/
def percentDecoded (text : String) : String := fromUtf8Lossy (decode (utf8 text))

/-- `s.strip_prefix('/').unwrap_or(s)` -/
def stripSlash (s : String) : String :=
  match s.toList with
  | '/' :: rest => String.ofList rest
  | _ => s

/-- The decoded key of a remote URL: its path without the slash in front and without escapes. -/
def remoteKey (remote : Remote) (url : Url) : String :=
  percentDecoded (stripSlash (remote.path url))

def isMeta (c : Char) : Bool := c == '*' || c == '?' || c == '['

/-- Everything up to the last `/` of a text, and that; nothing, if it has none. -/
def directory (front : List Char) : List Char := (front.reverse.dropWhile (· ≠ '/')).reverse

/-- The prefix to list for a pattern: everything up to the last `/` before the first
wildcard. -/
def globPrefix (key : List Char) : List Char :=
  match key.findIdx? isMeta with
  | some i => directory (key.take i)
  | none => key

/-! ## Listing -/

/-- A segment of a path, escaped; the two dot segments are escaped whole. -/
def pathPart (remote : Remote) (segment : List Char) : String :=
  if segment = ['.'] then "%2E"
  else if segment = ['.', '.'] then "%2E%2E"
  else String.ofList (encode remote.escapedInPath (utf8 (String.ofList segment)))

/-- `ObjPath::from`: the escaped segments, without empty ones.  So doubled slashes and one at
the end are lost. -/
def objPath (remote : Remote) (text : String) : String :=
  "/".intercalate (((text.toList.splitOn '/').map (pathPart remote)).filter (· ≠ ""))

/-- A store that lists: the locations under a path, or all of them.  A listing may fail. -/
abbrev Lister := Option String → Except String (List String)

/-- Expand a remote pattern into the URLs of the objects that match, sorted by their text;
`http(s)` cannot be listed. -/
def listGlob (env : Environment) (remote : Remote)
    (construct : Url → List (String × String) → Except String Lister)
    (overrides : List (String × String)) (url : Url) : Except Fault (List Url) :=
  if url.scheme = "http" ∨ url.scheme = "https" then .ok [url]
  else
    let key := remoteKey remote url
    match remote.newPattern key with
    | .error e => .error (.valueError s!"bad glob '{url.text}': {e}")
    | .ok pattern =>
        let under := String.ofList (globPrefix key.toList)
        match buildStore env construct url overrides with
        | .error e => .error (.valueError e)
        | .ok list =>
            let bucket := (hostStr env url).getD ""
            match list (if under.isEmpty then none else some (objPath remote under)) with
            | .error e => .error (.valueError s!"list {url.text}: {e}")
            | .ok metas =>
                let literals := (metas.map percentDecoded).filter (globMatches remote pattern)
                match literals.mapM fun literal =>
                    remote.parseUrl (encodeS3Url url.scheme (bucket ++ "/" ++ literal).toList) with
                | .error e => .error (.valueError s!"rebuild s3 url under '{url.text}': {e}")
                | .ok urls => .ok (KeySort.sortBy (fun u => utf8 u.text) compare urls)

/-- How the worker lists: local patterns are left to the file system, remote ones to the store
of the bucket. -/
def workerListing (env : Environment) (remote : Remote)
    (construct : Url → List (String × String) → Except String Lister)
    (glob : String → Except String (List String)) : Listing where
  glob := glob
  remoteKey := remoteKey remote
  listGlob := listGlob env remote construct []

/-! ## Keys travel through URLs -/

theorem escapedInKey_plain : Plain escapedInKey := by
  intro b hb
  simp only [escapedInKey, Bool.or_eq_false_iff, decide_eq_false_iff_not, beq_eq_false_iff_ne] at hb
  obtain ⟨⟨⟨⟨-, hascii⟩, hpercent⟩, -⟩, -⟩ := hb
  refine ⟨?_, hpercent⟩
  rw [UInt8.le_iff_toNat_le] at hascii
  change ¬ 127 ≤ b.toNat at hascii
  omega

theorem percentDecoded_encoded (key : String) :
    percentDecoded (String.ofList (percentEncode key.toList)) = key := by
  have hencode : percentEncode key.toList = encode escapedInKey (utf8 key) := by
    rw [percentEncode, String.ofList_toList]
    rfl
  rw [percentDecoded, hencode, utf8, utf8_ascii (encode_ascii escapedInKey_plain _),
    decode_encode escapedInKey_plain, utf8, fromUtf8Lossy_utf8]

/-- A key that a URL parser does not normalise: it does not end in a blank, and has no dot
segments. -/
def Kept (key : String) : Prop :=
  key.toList.getLast? ≠ some ' ' ∧
    ∀ segment ∈ key.toList.splitOn '/', segment ≠ ['.'] ∧ segment ≠ ['.', '.']

instance : DecidablePred Kept := fun _ => inferInstanceAs (Decidable (_ ∧ _))

/-- A URL keeps the escaped key that it is written with, but for further escapes.  This is
documented of the URL parser, for keys that it does not normalise. -/
def KeepsKeys (env : Environment) (remote : Remote) (scheme bucket : String) : Prop :=
  ∀ key, Kept key → ∃ url rest,
    remote.parseUrl s!"{scheme}://{bucket}/{String.ofList (percentEncode key.toList)}" = .ok url ∧
      url.scheme = scheme ∧ hostStr env url = some bucket ∧ remote.path url = "/" ++ rest ∧
      decode (utf8 rest) = decode (utf8 (String.ofList (percentEncode key.toList)))

/-- The URL of an object: in the bucket, under its scheme, and with the name of the object as
its key. -/
def Addresses (env : Environment) (remote : Remote) (scheme bucket key : String) (url : Url) :
    Prop :=
  url.scheme = scheme ∧ hostStr env url = some bucket ∧ remoteKey remote url = key

theorem splitOnce_front {c : Char} {sep front rest : List Char} (h : c ∉ front) :
    splitOnce (c :: sep) (front ++ (c :: sep ++ rest)) = some (front, rest) := by
  induction front with
  | nil =>
      have hprefix : (c :: sep).isPrefixOf (c :: (sep ++ rest)) = true :=
        List.isPrefixOf_iff_prefix.2 (List.prefix_append (c :: sep) rest)
      rw [List.nil_append, List.cons_append, splitOnce, if_pos hprefix, ← List.cons_append,
        List.drop_left]
  | cons d front ih =>
      rw [List.mem_cons, not_or] at h
      have hhead : ¬ ((c :: sep).isPrefixOf (d :: (front ++ (c :: sep ++ rest)))) = true := by
        simp [h.1]
      rw [List.cons_append, splitOnce, if_neg hhead, ih h.2]
      rfl

/-- An object whose name is written into a URL is read out of it. -/
theorem encodeS3Url_addresses {env : Environment} {remote : Remote} {scheme bucket : String}
    (hbucket : '/' ∉ bucket.toList) (hurls : KeepsKeys env remote scheme bucket) {key : String}
    (hkey : Kept key) :
    ∃ url, remote.parseUrl (encodeS3Url scheme (bucket ++ "/" ++ key).toList) = .ok url ∧
      Addresses env remote scheme bucket key url := by
  obtain ⟨url, rest, hparse, hscheme, hhost, hpath, hrest⟩ := hurls key hkey
  have hsplit : splitOnce ['/'] (bucket ++ "/" ++ key).toList =
      some (bucket.toList, key.toList) := by
    rw [String.toList_append, String.toList_append, List.append_assoc]
    exact splitOnce_front hbucket
  refine ⟨url, ?_, hscheme, hhost, ?_⟩
  · simp only [encodeS3Url, hsplit, Option.getD_some, String.ofList_toList]
    exact hparse
  · have hstrip : stripSlash ("/" ++ rest) = rest := by
      rw [stripSlash, String.toList_append]
      exact String.ofList_toList
    rw [remoteKey, hpath, hstrip, percentDecoded, hrest]
    exact percentDecoded_encoded key

/-- A location lies under a path, segment by segment; all lie under the empty one.  A path is
never the front of a segment. -/
def liesUnder (path : Option String) (location : String) : Bool :=
  match path with
  | none => true
  | some path => path.isEmpty || (path ++ "/").toList.isPrefixOf location.toList

/-- A bucket lists the locations of the objects that lie under a path, in any order. -/
def Lists (env : Environment) (construct : Url → List (String × String) → Except String Lister)
    (scheme bucket : String) (objects : List String) (location : String → String) : Prop :=
  ∀ url, url.scheme = scheme → hostStr env url = some bucket →
    ∃ list, buildStore env construct url [] = .ok list ∧
      ∀ path, ∃ metas, list path = .ok metas ∧
        metas.Perm ((objects.filter fun k => liesUnder path (location k)).map location)

/-- The path that is listed for a pattern: the directories in front of its first wildcard, or
none. -/
def listedPath (remote : Remote) (pattern : String) : Option String :=
  let under := String.ofList (globPrefix pattern.toList)
  if under.isEmpty then none else some (objPath remote under)

/-! ## What a pattern names -/

section Pattern

variable {env : Environment} {remote : Remote}
  {construct : Url → List (String × String) → Except String Lister} {scheme bucket : String}
  {objects : List String} {location : String → String}

/-- The names that are listed and match are those of the objects that lie under the path and
match. -/
theorem listed_matching (hlocation : ∀ k ∈ objects, percentDecoded (location k) = k)
    {p : remote.Pattern} {path : Option String} {metas : List String}
    (hperm : metas.Perm ((objects.filter fun k => liesUnder path (location k)).map location)) :
    ((metas.map percentDecoded).filter (globMatches remote p)).Perm
      (objects.filter fun k => globMatches remote p k && liesUnder path (location k)) := by
  have hdecoded : ((objects.filter fun k => liesUnder path (location k)).map location).map
      percentDecoded = objects.filter fun k => liesUnder path (location k) := by
    rw [List.map_map]
    conv_rhs => rw [← List.map_id (objects.filter _)]
    apply List.map_congr_left
    intro k hk
    exact hlocation k (List.mem_of_mem_filter hk)
  rw [← List.filter_filter, ← hdecoded]
  exact (hperm.map _).filter _

/-- The URLs that are built from names address the objects of these names, each its own. -/
theorem rebuilt_urls (hbucket : '/' ∉ bucket.toList) (hurls : KeepsKeys env remote scheme bucket)
    {literals : List String} (hkept : ∀ k ∈ literals, Kept k) :
    ∃ urls, literals.mapM (fun literal =>
        remote.parseUrl (encodeS3Url scheme (bucket ++ "/" ++ literal).toList)) = .ok urls ∧
      urls.map (remoteKey remote) = literals ∧
      ∀ u ∈ urls, u.scheme = scheme ∧ hostStr env u = some bucket := by
  induction literals with
  | nil => exact ⟨[], rfl, rfl, by simp⟩
  | cons key literals ih =>
      obtain ⟨hkey, hliterals⟩ := List.forall_mem_cons.1 hkept
      obtain ⟨u, hparse, hscheme, hhost, hname⟩ := encodeS3Url_addresses hbucket hurls hkey
      obtain ⟨urls, hparsed, hnames, hplaces⟩ := ih hliterals
      refine ⟨u :: urls, ?_, ?_, List.forall_mem_cons.2 ⟨⟨hscheme, hhost⟩, hplaces⟩⟩
      · rw [List.mapM_cons, hparse, hparsed]
        rfl
      · rw [List.map_cons, hname, hnames]

/-- The URLs of the listed objects in a bucket that match a pattern. -/
theorem listGlob_matching (hs3 : scheme = "s3" ∨ scheme = "s3a") (hbucket : '/' ∉ bucket.toList)
    (hurls : KeepsKeys env remote scheme bucket)
    (hlists : Lists env construct scheme bucket objects location)
    (hlocation : ∀ k ∈ objects, percentDecoded (location k) = k) (hkept : ∀ k ∈ objects, Kept k)
    {pattern : String} {p : remote.Pattern} (hpattern : remote.newPattern pattern = .ok p)
    {url : Url} (hurl : Addresses env remote scheme bucket pattern url) :
    ∃ urls, listGlob env remote construct [] url = .ok urls ∧
      (urls.map (remoteKey remote)).Perm (objects.filter fun k =>
        globMatches remote p k && liesUnder (listedPath remote pattern) (location k)) ∧
      (∀ u ∈ urls, u.scheme = scheme ∧ hostStr env u = some bucket) ∧
      KeySort.SortedBy (fun u => utf8 u.text) compare urls := by
  obtain ⟨hscheme, hhost, hkey⟩ := hurl
  obtain ⟨list, hbuild, hlist⟩ := hlists url hscheme hhost
  obtain ⟨metas, hmetas, hperm⟩ := hlist (listedPath remote pattern)
  have hliterals := @listed_matching _ _ _ hlocation p _ _ hperm
  obtain ⟨urls, hparsed, hnames, hplaces⟩ := rebuilt_urls hbucket hurls fun k hk =>
    hkept k (List.mem_of_mem_filter (hliterals.mem_iff.1 hk))
  have hs3 : ¬ (url.scheme = "http" ∨ url.scheme = "https") := by
    rw [hscheme]
    rcases hs3 with rfl | rfl <;> decide
  have hsorted := KeySort.sortBy_perm (fun u : Url => utf8 u.text) compare urls
  rw [listedPath] at hmetas
  refine ⟨KeySort.sortBy (fun u => utf8 u.text) compare urls, ?_, ?_, fun u hu => ?_,
    KeySort.sortBy_sorted _ _ _⟩
  · rw [listGlob, if_neg hs3]
    simp only [hkey, hpattern, hbuild, hmetas, hhost, hscheme, Option.getD_some]
    rw [hparsed]
  · exact (hsorted.map _).trans (hnames ▸ hliterals)
  · exact hplaces u (hsorted.mem_iff.1 hu)

/-- A directory that is listed as it is spelled: no character of it is escaped, and no segment
is empty. -/
def ListedAsSpelled (remote : Remote) (directory : String) : Prop :=
  directory = "" ∨ (objPath remote directory ≠ "" ∧ objPath remote directory ++ "/" = directory)

/-- Under the path of such a directory lie the locations that begin with it. -/
theorem liesUnder_iff_of_spelled {pattern : String}
    (h : ListedAsSpelled remote (String.ofList (globPrefix pattern.toList))) {l : String} :
    liesUnder (listedPath remote pattern) l = true ↔ globPrefix pattern.toList <+: l.toList := by
  rw [listedPath]
  generalize globPrefix pattern.toList = directory at h ⊢
  rcases h with hempty | ⟨hpath, hspelled⟩
  · have hnil : directory = [] := by
      rw [← String.toList_ofList (l := directory), hempty]
      rfl
    simp [hnil, liesUnder]
  · have hne : (String.ofList directory).isEmpty = false := by
      rw [← hspelled]
      simp
    have hne' : (objPath remote (String.ofList directory)).isEmpty = false := by
      simpa using hpath
    rw [hne, if_neg Bool.false_ne_true, liesUnder, hne', Bool.false_or, hspelled,
      String.toList_ofList, List.isPrefixOf_iff_prefix]

end Pattern

/-- An S3 path is a remote location. -/
theorem classify_s3 {parseUrl : String → Except String Url} {scheme bucket key : String}
    (hs3 : scheme = "s3" ∨ scheme = "s3a") {url : Url}
    (h : parseUrl (encodeS3Url scheme (bucket ++ "/" ++ key).toList) = .ok url) :
    Cloud.classify parseUrl s!"{scheme}://{bucket}/{key}" = .ok (.remote url) := by
  have hcolon : ':' ∉ scheme.toList := by
    rcases hs3 with rfl | rfl <;> decide
  have hlower : (String.ofList scheme.toList).toLower = scheme := by
    rcases hs3 with rfl | rfl <;> decide +kernel
  have hsplit : splitOnce "://".toList s!"{scheme}://{bucket}/{key}".toList =
      some (scheme.toList, (bucket ++ "/" ++ key).toList) := by
    have htext : s!"{scheme}://{bucket}/{key}".toList =
        scheme.toList ++ ("://".toList ++ (bucket ++ "/" ++ key).toList) := by
      change (scheme ++ "://" ++ bucket ++ "/" ++ key).toList = _
      simp [String.toList_append]
    rw [htext]
    exact splitOnce_front hcolon
  simp only [Cloud.classify, hsplit, hlower, if_pos hs3, h]

/-- A remote pattern names the objects of the bucket that lie under its directory and match it
in any case of their letters, each once, sorted by the texts of their URLs, and the key of each
URL is that of its object.  Where the directory is listed as it is spelled, the matching objects
that are found are those that begin with it. -/
theorem remote_glob (o : Outside) (remote : Remote)
    (construct : Url → List (String × String) → Except String Lister)
    (glob : String → Except String (List String)) {scheme bucket : String}
    (objects : List String) (location : String → String)
    (hs3 : scheme = "s3" ∨ scheme = "s3a") (hbucket : '/' ∉ bucket.toList)
    (hparse : o.parseUrl = remote.parseUrl)
    (hurls : KeepsKeys o.cloud remote scheme bucket)
    (hlists : Lists o.cloud construct scheme bucket objects location)
    (hlocation : ∀ k ∈ objects, percentDecoded (location k) = k) (hkept : ∀ k ∈ objects, Kept k)
    {pattern : String} (hglob : isGlob pattern = true) (hpkept : Kept pattern)
    {p : remote.Pattern} (hpattern : remote.newPattern pattern = .ok p) :
    ∃ urls, resolveLocations o (workerListing o.cloud remote construct glob)
        s!"{scheme}://{bucket}/{pattern}" = .ok (urls.map .remote) ∧
      (urls.map (remoteKey remote)).Perm (objects.filter fun k =>
        globMatches remote p k && liesUnder (listedPath remote pattern) (location k)) ∧
      (ListedAsSpelled remote (String.ofList (globPrefix pattern.toList)) →
        ∀ k ∈ objects, globMatches remote p k = true →
          (k ∈ urls.map (remoteKey remote) ↔
            globPrefix pattern.toList <+: (location k).toList)) ∧
      (∀ u ∈ urls, u.scheme = scheme ∧ hostStr o.cloud u = some bucket) ∧
      KeySort.SortedBy (fun u => utf8 u.text) compare urls := by
  obtain ⟨url, hurl, haddresses⟩ := encodeS3Url_addresses hbucket hurls hpkept
  obtain ⟨urls, hlisted, hmatching, hplaces⟩ := listGlob_matching hs3 hbucket hurls hlists
    hlocation hkept hpattern haddresses
  refine ⟨urls, ?_, hmatching, fun hspelled k hk hmatch => ?_, hplaces⟩
  · have hkey : (workerListing o.cloud remote construct glob).remoteKey url = pattern :=
      haddresses.2.2
    rw [resolveLocations, hparse, classify_s3 hs3 hurl]
    simp only [hkey, hglob, if_true]
    exact congrArg (Except.map _) hlisted
  · rw [hmatching.mem_iff, List.mem_filter, Bool.and_eq_true,
      liesUnder_iff_of_spelled hspelled]
    simp [hk, hmatch]

/-! ## A bucket -/

/-- The rest of a key behind any characters of its first segment: what `*` may leave to be
matched. -/
def tailsWithin : List Char → List (List Char)
  | [] => [[]]
  | c :: key => (c :: key) :: (if c == '/' then [] else tailsWithin key)

/-- Equal characters, or the same letter. -/
def sameLetter (caseSensitive : Bool) (x c : Char) : Bool :=
  x == c || (!caseSensitive && x.toLower == c.toLower)

/-- Patterns with `*` and `?`.  Neither of them matches a separator. -/
def starMatch (caseSensitive : Bool) : List Char → List Char → Bool
  | [], key => key.isEmpty
  | '*' :: p, key => (tailsWithin key).any (starMatch caseSensitive p)
  | '?' :: p, c :: key => c != '/' && starMatch caseSensitive p key
  | x :: p, c :: key => sameLetter caseSensitive x c && starMatch caseSensitive p key
  | _ :: _, [] => false

/-- URLs without further escapes, and patterns with `*` and `?`. -/
def plainRemote : Remote where
  parseUrl text :=
    match splitOnce "://".toList text.toList with
    | some (scheme, rest) =>
        match splitOnce ['/'] rest with
        | some (host, _) => .ok ⟨String.ofList scheme, some (.domain (String.ofList host)), text⟩
        | none => .error "no path"
    | none => .error "no scheme"
  path url :=
    match splitOnce "://".toList url.text.toList with
    | some (_, rest) =>
        match splitOnce ['/'] rest with
        | some (_, key) => "/" ++ String.ofList key
        | none => ""
    | none => ""
  Pattern := List Char
  newPattern key := .ok key.toList
  matchesWith p key options := starMatch options.caseSensitive p key.toList
  escapedInPath b := b < 0x20 || 0x7e ≤ b || b == '%'.toNat.toUInt8

theorem plainRemote_keeps : KeepsKeys offline plainRemote "s3" "b" := by
  intro key _
  let scheme := "s3"
  let bucket := "b"
  generalize htext : s!"{scheme}://{bucket}/{String.ofList (percentEncode key.toList)}" = text
  have hchars : text.toList =
      "s3".toList ++ ("://".toList ++ ("b".toList ++ (['/'] ++ percentEncode key.toList))) := by
    rw [← htext]
    change ("s3" ++ "://" ++ "b" ++ "/" ++ String.ofList (percentEncode key.toList)).toList = _
    simp [String.toList_append]
  have hscheme (rest : List Char) : splitOnce "://".toList
      ("s3".toList ++ ("://".toList ++ rest)) = some ("s3".toList, rest) :=
    splitOnce_front (by decide)
  have hbucket : splitOnce ['/'] ("b".toList ++ (['/'] ++ percentEncode key.toList)) =
      some ("b".toList, percentEncode key.toList) := splitOnce_front (by decide)
  refine ⟨⟨"s3", some (.domain "b"), text⟩, String.ofList (percentEncode key.toList), ?_, rfl, rfl,
    ?_, rfl⟩
  · simp only [plainRemote, hchars, hscheme, hbucket]
    rfl
  · simp only [plainRemote, hchars, hscheme, hbucket]

def sampleObjects : List String :=
  ["data/part-1.cbor", "data/PART-2.CBOR", "Data/part-3.cbor", "data/more/part-4.cbor",
    "part-5.cbor"]

def sampleLister : Lister := fun path => .ok (sampleObjects.filter fun k => liesUnder path k)

theorem sampleLister_lists :
    Lists offline (fun _ _ => .ok sampleLister) "s3" "b" sampleObjects id := by
  intro url hscheme _
  refine ⟨sampleLister, ?_, fun path => ⟨_, rfl, ?_⟩⟩
  · simp [buildStore, hscheme]
  · rw [List.map_id]
    rfl

/-- The object in the other directory matches too, and is not found. -/
theorem remote_glob_parts :
    globMatches plainRemote "data/part-?.cbor".toList "Data/part-3.cbor" = true ∧
    ∃ urls : List Url, resolveLocations { intervals with parseUrl := plainRemote.parseUrl, cloud := offline }
        (workerListing offline plainRemote (fun _ _ => .ok sampleLister) fun _ => .error "")
        "s3://b/data/part-?.cbor" = .ok (urls.map .remote) ∧
      (urls.map (remoteKey plainRemote)).Perm ["data/part-1.cbor", "data/PART-2.CBOR"] ∧
      "Data/part-3.cbor" ∉ urls.map (remoteKey plainRemote) := by
  obtain ⟨urls, hresolve, hkeys, hfound, -⟩ := @remote_glob
    { intervals with parseUrl := plainRemote.parseUrl, cloud := offline } plainRemote
    (fun _ _ => .ok sampleLister) (fun _ => .error "") "s3" "b"
    sampleObjects id (.inl rfl) (by decide) rfl plainRemote_keeps sampleLister_lists
    (by decide +kernel) (by decide +kernel) "data/part-?.cbor" (by decide)
    (by decide +kernel) _ rfl
  have hmatch : globMatches plainRemote "data/part-?.cbor".toList "Data/part-3.cbor" = true := by
    decide +kernel
  refine ⟨hmatch, urls, hresolve, hkeys.trans (.of_eq (by decide +kernel)), ?_⟩
  rw [hfound (.inr (by decide +kernel)) "Data/part-3.cbor" (by decide) hmatch]
  decide +kernel

end VgiCbor.CopyDestination
