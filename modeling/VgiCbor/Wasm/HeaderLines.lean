import VgiCbor.Core.Value

/-!
# Response headers in JavaScript

The browser gives the headers of a response as one text.  The library trims it, splits it at
line ends and takes each line apart at its first colon; so it reads the headers from their
lines (`headersOf_lines`).
-/

namespace VgiCbor.Wasm

/-- What `trim` removes: white space and line ends. -/
def isJsSpace (c : Char) : Bool :=
  let n := c.toNat
  (9 ≤ n && n ≤ 13) || n == 0x20 || n == 0xa0 || n == 0x1680 || (0x2000 ≤ n && n ≤ 0x200a) ||
    n == 0x2028 || n == 0x2029 || n == 0x202f || n == 0x205f || n == 0x3000 || n == 0xfeff

/-- `s.trim()` -/
def jsTrim (s : List Char) : List Char := (s.dropWhile isJsSpace).rdropWhile isJsSpace

/-- A carriage return or a line feed. -/
def isBreak (c : Char) : Bool := c == '\r' || c == '\n'

/-- `s.split(/[\r\n]+/)` -/
def splitRuns (s : List Char) : List (List Char) :=
  match _hspan : s.dropWhile fun c => !isBreak c with
  | [] => [s]
  | _ :: rest => (s.takeWhile fun c => !isBreak c) :: splitRuns (rest.dropWhile isBreak)
termination_by s.length
decreasing_by
  have hrest := (List.dropWhile_suffix (l := rest) isBreak).length_le
  have hlen := (List.dropWhile_suffix (l := s) fun c => !isBreak c).length_le
  rw [_hspan, List.length_cons] at hlen
  omega

/-- The name and the value of a line; a line without a colon is no header.  White space around
both is trimmed. -/
def headerOf (line : List Char) : Option (String × String) :=
  match line.dropWhile (· != ':') with
  | [] => none
  | _ :: value =>
      some (String.ofList (jsTrim (line.takeWhile (· != ':'))), String.ofList (jsTrim value))

/-- The headers in the text that `getAllResponseHeaders` returns. -/
def headersOf (rawHeaders : Option String) : List (String × String) :=
  (splitRuns (jsTrim (rawHeaders.getD "").toList)).filterMap headerOf

/-- A header line as `getAllResponseHeaders` writes it. -/
def headerLine (header : String × String) : List Char :=
  header.1.toList ++ ':' :: ' ' :: header.2.toList ++ ['\r', '\n']

/-- A header as a response can have it: a name without blanks and colons, and a value without
line ends and without blanks around it. -/
structure IsHeader (header : String × String) : Prop where
  name_nonempty : header.1.toList ≠ []
  name : ∀ c ∈ header.1.toList, isJsSpace c = false ∧ c ≠ ':'
  value : ∀ c ∈ header.2.toList, isBreak c = false
  first : ∀ c ∈ header.2.toList.head?, isJsSpace c = false
  last : ∀ c ∈ header.2.toList.getLast?, isJsSpace c = false

theorem isJsSpace_of_isBreak {c : Char} (h : isBreak c = true) : isJsSpace c = true := by
  simp only [isBreak, Bool.or_eq_true, beq_iff_eq] at h
  rcases h with rfl | rfl <;> rfl

theorem isBreak_of_not_isJsSpace {c : Char} (h : isJsSpace c = false) : isBreak c = false := by
  by_contra hbreak
  rw [Bool.not_eq_false] at hbreak
  rw [isJsSpace_of_isBreak hbreak] at h
  cases h

/-- Blanks behind a text that ends in none. -/
theorem rdropWhile_blanks {s blanks : List Char} (hlast : ∀ c ∈ s.getLast?, isJsSpace c = false)
    (hblanks : ∀ c ∈ blanks, isJsSpace c = true) :
    (s ++ blanks).rdropWhile isJsSpace = s := by
  induction blanks using List.reverseRecOn with
  | nil =>
      rw [List.append_nil, List.rdropWhile_eq_self_iff]
      intro hne hspace
      rw [hlast _ (List.getLast?_eq_some_getLast hne)] at hspace
      cases hspace
  | append_singleton blanks c ih =>
      rw [← List.append_assoc, List.rdropWhile_concat_pos _ _ _ (hblanks c (by simp))]
      exact ih fun d hd => hblanks d (List.mem_append_left _ hd)

/-- A text between blanks. -/
theorem jsTrim_blanks {front s blanks : List Char} (hfront : ∀ c ∈ front, isJsSpace c = true)
    (hfirst : ∀ c ∈ s.head?, isJsSpace c = false)
    (hlast : ∀ c ∈ s.getLast?, isJsSpace c = false) (hblanks : ∀ c ∈ blanks, isJsSpace c = true) :
    jsTrim (front ++ s ++ blanks) = s := by
  rw [jsTrim, List.append_assoc, List.dropWhile_append_of_pos hfront]
  cases s with
  | nil =>
      rw [List.nil_append, List.dropWhile_eq_nil_iff.2 hblanks, List.rdropWhile_nil]
  | cons c s =>
      rw [List.cons_append, List.dropWhile_cons_of_neg (by simp [hfirst c rfl]), ← List.cons_append]
      exact rdropWhile_blanks hlast hblanks

/-- A line, a line end, and what follows. -/
theorem splitRuns_line {line rest : List Char} (hline : ∀ c ∈ line, isBreak c = false) {c : Char}
    (hc : isBreak c = true) :
    splitRuns (line ++ c :: rest) = line :: splitRuns (rest.dropWhile isBreak) := by
  have hdrop : (line ++ c :: rest).dropWhile (fun c => !isBreak c) = c :: rest := by
    rw [List.dropWhile_append_of_pos fun d hd => by simp [hline d hd],
      List.dropWhile_cons_of_neg (by simp [hc])]
  have htake : (line ++ c :: rest).takeWhile (fun c => !isBreak c) = line := by
    rw [List.takeWhile_append_of_pos fun d hd => by simp [hline d hd],
      List.takeWhile_cons_of_neg (by simp [hc]), List.append_nil]
  rw [splitRuns]
  split
  · next hnil => rw [hdrop] at hnil; cases hnil
  · next d rest' hcons =>
      rw [hdrop] at hcons
      cases hcons
      rw [htake]

theorem splitRuns_last {line : List Char} (hline : ∀ c ∈ line, isBreak c = false) :
    splitRuns line = [line] := by
  have hdrop : line.dropWhile (fun c => !isBreak c) = [] :=
    List.dropWhile_eq_nil_iff.2 fun c hc => by simp [hline c hc]
  rw [splitRuns]
  split
  · rfl
  · next d rest hcons => rw [hdrop] at hcons; cases hcons

/-- The name stands before the first colon. -/
theorem headerOf_line {header : String × String} (h : IsHeader header) {value : List Char}
    (hvalue : jsTrim value = header.2.toList) :
    headerOf (header.1.toList ++ ':' :: value) = some header := by
  have hdrop : (header.1.toList ++ ':' :: value).dropWhile (· != ':') = ':' :: value := by
    rw [List.dropWhile_append_of_pos fun c hc => by simp [(h.name c hc).2],
      List.dropWhile_cons_of_neg (by simp)]
  have htake : (header.1.toList ++ ':' :: value).takeWhile (· != ':') = header.1.toList := by
    rw [List.takeWhile_append_of_pos fun c hc => by simp [(h.name c hc).2],
      List.takeWhile_cons_of_neg (by simp), List.append_nil]
  have htrim : jsTrim header.1.toList = header.1.toList := by
    have hblanks := @jsTrim_blanks [] header.1.toList [] (by simp)
      (fun c hc => (h.name c (List.mem_of_mem_head? hc)).1)
      (fun c hc => (h.name c (List.mem_of_getLast? hc)).1) (by simp)
    simpa using hblanks
  rw [headerOf, hdrop, htake]
  dsimp only
  rw [htrim, hvalue, String.ofList_toList, String.ofList_toList]

theorem isBreak_of_mem_name {header : String × String} (h : IsHeader header) :
    ∀ c ∈ header.1.toList, isBreak c = false := fun c hc =>
  isBreak_of_not_isJsSpace (h.name c hc).1

/-- A line without its line end has none within. -/
theorem isBreak_of_mem_line {header : String × String} (h : IsHeader header) {value : List Char}
    (hvalue : ∀ c ∈ value, isBreak c = false) :
    ∀ c ∈ header.1.toList ++ ':' :: value, isBreak c = false := by
  intro c hc
  rcases List.mem_append.1 hc with hname | hrest
  · exact isBreak_of_mem_name h c hname
  · rcases List.mem_cons.1 hrest with rfl | hc
    · rfl
    · exact hvalue c hc

theorem jsTrim_value {header : String × String} (h : IsHeader header) :
    jsTrim (' ' :: header.2.toList) = header.2.toList := by
  have hblanks := @jsTrim_blanks [' '] _ []
    (fun c hc => by rw [List.mem_singleton.1 hc]; rfl) h.first h.last (by simp)
  rwa [List.append_nil] at hblanks

/-- Lines with their ends, then a last line. -/
theorem splitRuns_lines {hs : List (String × String)} (hheaders : ∀ h ∈ hs, IsHeader h)
    {line : List Char} (hline : ∀ c ∈ line, isBreak c = false) :
    splitRuns (hs.flatMap headerLine ++ line) =
      hs.map (fun h => h.1.toList ++ ':' :: ' ' :: h.2.toList) ++ [line] := by
  induction hs with
  | nil => exact splitRuns_last hline
  | cons header hs ih =>
      have hheader := hheaders header List.mem_cons_self
      have hrest : ((hs.flatMap headerLine ++ line).dropWhile isBreak) =
          hs.flatMap headerLine ++ line := by
        rw [List.dropWhile_eq_self_iff]
        intro hlen
        cases hs with
        | nil =>
            have hmem := hline _ (List.getElem_mem (l := line) hlen)
            simpa using hmem
        | cons next hs =>
            have hnext := hheaders next (by simp)
            obtain ⟨c, name, hname⟩ := List.exists_cons_of_ne_nil hnext.name_nonempty
            have hc := isBreak_of_mem_name hnext c (by rw [hname]; exact List.mem_cons_self)
            simp [headerLine, hname, hc]
      have hbreaks := @isBreak_of_mem_line _ hheader (' ' :: header.2.toList) (by
        intro c hc
        rcases List.mem_cons.1 hc with rfl | hc
        · rfl
        · exact hheader.value c hc)
      rw [List.flatMap_cons, List.map_cons, List.cons_append,
        show headerLine header ++ hs.flatMap headerLine ++ line =
            (header.1.toList ++ ':' :: ' ' :: header.2.toList) ++
              '\r' :: ('\n' :: (hs.flatMap headerLine ++ line)) by simp [headerLine],
        splitRuns_line hbreaks rfl, List.dropWhile_cons_of_pos (by rfl), hrest,
        ih fun h hh => hheaders h (List.mem_cons_of_mem _ hh)]

/-- The last line when the text around it is trimmed: without its end, and without the blank
behind the colon when the value is empty. -/
def lastLine (header : String × String) : List Char :=
  header.1.toList ++ ':' :: (if header.2.toList = [] then [] else ' ' :: header.2.toList)

theorem jsTrim_lines {hs : List (String × String)} (hheaders : ∀ h ∈ hs, IsHeader h)
    {header : String × String} (hheader : IsHeader header) :
    jsTrim ((hs ++ [header]).flatMap headerLine) = hs.flatMap headerLine ++ lastLine header := by
  have hfirst : ∀ c ∈ (hs.flatMap headerLine ++ lastLine header).head?, isJsSpace c = false := by
    have hname : ∀ h : String × String, IsHeader h → ∀ rest : List Char,
        ∀ c ∈ (h.1.toList ++ rest).head?, isJsSpace c = false := by
      intro h hh rest c hc
      rw [List.head?_append_of_ne_nil _ hh.name_nonempty] at hc
      exact (hh.name c (List.mem_of_mem_head? hc)).1
    cases hs with
    | nil => exact hname header hheader _
    | cons next hs =>
        rw [List.flatMap_cons, headerLine, List.append_assoc, List.append_assoc]
        simp only [List.append_assoc]
        exact hname next (hheaders next List.mem_cons_self) _
  have hlast : ∀ c ∈ (hs.flatMap headerLine ++ lastLine header).getLast?, isJsSpace c = false := by
    intro c hc
    rw [lastLine] at hc
    by_cases hempty : header.2.toList = []
    · rw [if_pos hempty, ← List.append_assoc, List.getLast?_concat] at hc
      cases hc
      rfl
    · have hsplit : hs.flatMap headerLine ++ (header.1.toList ++ ':' :: ' ' :: header.2.toList) =
          (hs.flatMap headerLine ++ (header.1.toList ++ [':', ' '])) ++ header.2.toList := by simp
      rw [if_neg hempty, hsplit, List.getLast?_append_of_ne_nil _ hempty] at hc
      exact hheader.last c hc
  have hall := @jsTrim_blanks [] _ ((if header.2.toList = [] then [' '] else []) ++ ['\r', '\n'])
    (by simp) hfirst hlast (by
      intro c hc
      split at hc <;> simp at hc <;> rcases hc with rfl | rfl | rfl <;> rfl)
  rw [← hall]
  congr 1
  rw [lastLine]
  split
  · next hempty => simp [headerLine, hempty]
  · next hvalue => simp [headerLine]

/-- The header lines of a response, as the browser writes them, are read as its headers. -/
theorem headersOf_lines {hs : List (String × String)} (hheaders : ∀ h ∈ hs, IsHeader h) :
    headersOf (some (String.ofList (hs.flatMap headerLine))) = hs := by
  rw [headersOf, Option.getD_some, String.toList_ofList]
  induction hs using List.reverseRecOn with
  | nil =>
      rw [List.flatMap_nil, show jsTrim [] = [] from rfl, splitRuns_last (by simp)]
      rfl
  | append_singleton hs header _ =>
      have hinit : ∀ h ∈ hs, IsHeader h := fun h hh => hheaders h (List.mem_append_left _ hh)
      have hheader := hheaders header (by simp)
      have hline : ∀ c ∈ lastLine header, isBreak c = false := by
        apply isBreak_of_mem_line hheader
        intro c hc
        split at hc
        · cases hc
        · rcases List.mem_cons.1 hc with rfl | hc
          · rfl
          · exact hheader.value c hc
      have hlines : (hs.map fun h => h.1.toList ++ ':' :: ' ' :: h.2.toList).filterMap headerOf = hs := by
        rw [List.filterMap_map]
        conv_rhs => rw [← List.filterMap_some (l := hs)]
        apply List.filterMap_congr
        intro h hh
        exact headerOf_line (hinit h hh) (jsTrim_value (hinit h hh))
      have hlast : headerOf (lastLine header) = some header := by
        rw [lastLine]
        apply headerOf_line hheader
        split
        · next hempty => rw [hempty]; rfl
        · exact jsTrim_value hheader
      rw [jsTrim_lines hinit hheader, splitRuns_lines hinit hline,
        List.filterMap_append, hlines, List.filterMap_cons_some hlast, List.filterMap_nil]

end VgiCbor.Wasm
