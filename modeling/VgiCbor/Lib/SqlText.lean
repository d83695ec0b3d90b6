import VgiCbor.Lib.InstantText

/-!
# Literals in SQL text

Rows of integers and text as a `VALUES` list.  A quote inside a text literal is doubled, so
whatever a text holds, the list is read back as the rows that were written (`readValues_values`).
-/

namespace SqlText

open InstantText

/-! ## Writing -/

inductive Literal where
  | int (n : Int)
  | text (s : List Char)
  deriving DecidableEq

/-- A quote. -/
abbrev quote : Char := '\x27'

/-- A quote in a text is written twice. -/
def escape (s : List Char) : List Char := s.flatMap fun c => if c = quote then [quote, quote] else [c]

def Literal.sql : Literal → List Char
  | .int n => (toString n).toList
  | .text s => quote :: escape s ++ [quote]

def row (literals : List Literal) : List Char :=
  '(' :: [','].intercalate (literals.map Literal.sql) ++ [')']

def values (rows : List (List Literal)) : List Char := [',', ' '].intercalate (rows.map row)

/-! ## Reading -/

/-- The text behind an opening quote, up to the closing one. -/
def readText : List Char → Option (List Char × List Char)
  | [] => none
  | [c] => if c = quote then some ([], []) else none
  | c :: d :: rest =>
      if c = quote then
        if d = quote then (readText rest).map fun (s, more) => (quote :: s, more)
        else some ([], d :: rest)
      else (readText (d :: rest)).map fun (s, more) => (c :: s, more)

def readLiteral (text : List Char) : Option (Literal × List Char) :=
  match text with
  | c :: rest =>
      if c = quote then (readText rest).map fun (s, more) => (.text s, more)
      else
        let (n, more) := readYear (c :: rest)
        some (.int n, more)
  | [] => none

section Separated

variable {α : Type} (item : List Char → Option (α × List Char)) (sep : List Char)

/-- One item after the other, as long as separators follow. -/
def readSeparated : Nat → List Char → Option (List α × List Char)
  | 0, _ => none
  | fuel + 1, text =>
      (item text).bind fun (a, rest) =>
        if sep.isPrefixOf rest then
          (readSeparated fuel (rest.drop sep.length)).map fun (as, more) => (a :: as, more)
        else some ([a], rest)

end Separated

def readRow (text : List Char) : Option (List Literal × List Char) :=
  match text with
  | '(' :: rest =>
      (readSeparated readLiteral [','] rest.length rest).bind fun (literals, more) =>
        if more.head? = some ')' then some (literals, more.tail) else none
  | _ => none

def readValues (text : List Char) : Option (List (List Literal) × List Char) :=
  readSeparated readRow [',', ' '] text.length text

/-! ## What is written is read back -/

theorem readText_escape (s : List Char) {c : Char} (hc : c ≠ quote) (rest : List Char) :
    readText (escape s ++ quote :: c :: rest) = some (s, c :: rest) := by
  induction s with
  | nil => simp [escape, readText, hc]
  | cons d s ih =>
      have hmore : escape (d :: s) ++ quote :: c :: rest =
          (if d = quote then [quote, quote] else [d]) ++ (escape s ++ quote :: c :: rest) := by
        rw [escape, List.flatMap_cons, List.append_assoc]
        rfl
      rw [hmore]
      by_cases hd : d = quote
      · rw [if_pos hd, hd]
        simp [readText, ih]
      · rw [if_neg hd]
        cases htext : escape s ++ quote :: c :: rest with
        | nil => simp at htext
        | cons e text =>
            rw [htext] at ih
            simp [readText, hd, ih]

/-- An integer literal is a number without padding. -/
theorem toString_int (n : Int) : (toString n).toList = padded 0 n := by
  cases n with
  | ofNat m =>
      change (Nat.repr m).toList = padded 0 (m : Int)
      rw [padded_of_nonneg (Int.natCast_nonneg m), Nat.repr, String.toList_ofList, zeroPad]
      simp
  | negSucc m =>
      rw [padded, if_pos (Int.negSucc_lt_zero m)]
      change ("-" ++ Nat.repr (m + 1)).toList = _
      rw [String.toList_append, Nat.repr, String.toList_ofList, zeroPad]
      simp

theorem padded_head (n : Int) : ∃ d digits, padded 0 n = d :: digits ∧ d ≠ quote := by
  rw [padded]
  split_ifs with hsign
  · exact ⟨'-', _, rfl, by decide⟩
  · cases hpad : zeroPad 0 (Nat.toDigits 10 n.natAbs) with
    | nil => simp [zeroPad] at hpad
    | cons d digits =>
        have hdigit : d.isDigit = true := zeroPad_isDigit (hpad ▸ List.mem_cons_self)
        refine ⟨d, digits, rfl, ?_⟩
        rintro rfl
        cases hdigit

theorem readLiteral_sql (literal : Literal) {c : Char} (hquote : c ≠ quote)
    (hdigit : c.isDigit = false) (rest : List Char) :
    readLiteral (literal.sql ++ c :: rest) = some (literal, c :: rest) := by
  cases literal with
  | text s =>
      have htext : (Literal.text s).sql ++ c :: rest = quote :: (escape s ++ quote :: c :: rest) := by
        simp [Literal.sql]
      rw [htext, readLiteral, if_pos rfl, readText_escape s hquote]
      rfl
  | int n =>
      obtain ⟨d, digits, hpadded, hd⟩ := padded_head n
      have hread := readYear_padded n 0 hdigit rest
      rw [hpadded, List.cons_append] at hread
      rw [Literal.sql, toString_int, hpadded, List.cons_append, readLiteral, if_neg hd]
      simp only [hread]

/-- A list with separators is read item by item. -/
theorem readSeparated_items {α : Type} {item : List Char → Option (α × List Char)}
    {s : Char} {sep : List Char} {write : α → List Char} {c : Char} (hsep : c ≠ s)
    (rest : List Char) (a : α) (as : List α)
    (hitem : ∀ b ∈ a :: as, ∀ d, d = s ∨ d = c → ∀ rest,
      item (write b ++ d :: rest) = some (b, d :: rest))
    {fuel : Nat} (hfuel : as.length < fuel) :
    readSeparated item (s :: sep) fuel ((s :: sep).intercalate ((a :: as).map write) ++ c :: rest) =
      some (a :: as, c :: rest) := by
  induction as generalizing a fuel with
  | nil =>
      obtain ⟨fuel, rfl⟩ := Nat.exists_eq_succ_of_ne_zero (Nat.ne_of_gt hfuel)
      have hend : ¬ (s :: sep).isPrefixOf (c :: rest) = true := by simp [hsep.symm]
      have htext : (s :: sep).intercalate ([a].map write) ++ c :: rest = write a ++ c :: rest := by
        simp
      rw [htext, readSeparated, hitem a List.mem_cons_self c (.inr rfl), Option.bind_some]
      exact if_neg hend
  | cons b as ih =>
      obtain ⟨fuel, rfl⟩ := Nat.exists_eq_succ_of_ne_zero (Nat.ne_of_gt (Nat.zero_lt_of_lt hfuel))
      have htext : (s :: sep).intercalate ((a :: b :: as).map write) ++ c :: rest =
          write a ++ s :: (sep ++ ((s :: sep).intercalate ((b :: as).map write) ++ c :: rest)) := by
        simp
      have hnext : (s :: sep).isPrefixOf
          (s :: (sep ++ ((s :: sep).intercalate ((b :: as).map write) ++ c :: rest))) = true :=
        List.isPrefixOf_iff_prefix.2 (List.prefix_append (s :: sep) _)
      have hroom : as.length < fuel := by
        rw [List.length_cons] at hfuel
        omega
      have hmore := ih b (fun x hx => hitem x (List.mem_cons_of_mem _ hx)) hroom
      rw [htext, readSeparated, hitem a List.mem_cons_self s (.inl rfl), Option.bind_some]
      simp only [if_pos hnext]
      rw [← List.cons_append, List.drop_left, hmore]
      rfl

theorem length_intercalate (sep : List Char) {items : List (List Char)}
    (h : ∀ item ∈ items, item ≠ []) : items.length ≤ (sep.intercalate items).length := by
  induction items with
  | nil => exact Nat.zero_le _
  | cons item items ih =>
      obtain ⟨hitem, hitems⟩ := List.forall_mem_cons.1 h
      have hpos := List.length_pos_iff.2 hitem
      cases items with
      | nil =>
          rw [List.intercalate_singleton]
          exact hpos
      | cons next items =>
          have hle := ih hitems
          rw [List.intercalate_cons_cons, List.length_append, List.length_append, List.length_cons]
          omega

theorem sql_ne_nil (literal : Literal) : literal.sql ≠ [] := by
  cases literal with
  | text s => simp [Literal.sql]
  | int n =>
      obtain ⟨d, digits, hpadded, -⟩ := padded_head n
      rw [Literal.sql, toString_int, hpadded]
      exact List.cons_ne_nil d digits

theorem readRow_row {literals : List Literal} (hne : literals ≠ []) (rest : List Char) :
    readRow (row literals ++ rest) = some (literals, rest) := by
  cases literals with
  | nil => exact absurd rfl hne
  | cons literal literals =>
      have htext : row (literal :: literals) ++ rest = '(' ::
          ([','].intercalate ((literal :: literals).map Literal.sql) ++ ')' :: rest) := by
        simp [row]
      rw [htext, readRow, readSeparated_items (by decide) rest literal literals]
      · rfl
      · rintro b - d hd rest
        apply readLiteral_sql <;> rcases hd with rfl | rfl <;> decide
      · have hlen := @length_intercalate [','] ((literal :: literals).map Literal.sql)
          fun item hitem => by
            obtain ⟨literal, -, rfl⟩ := List.mem_map.1 hitem
            exact sql_ne_nil literal
        simp only [List.length_append, List.length_map, List.length_cons] at hlen ⊢
        omega

/-- Rows are read back as they were written. -/
theorem readValues_values {rows : List (List Literal)} (hne : rows ≠ [])
    (hrows : ∀ r ∈ rows, r ≠ []) (rest : List Char) :
    readValues (values rows ++ ')' :: rest) = some (rows, ')' :: rest) := by
  cases rows with
  | nil => exact absurd rfl hne
  | cons r rows =>
      rw [readValues, values, readSeparated_items (by decide) rest r rows]
      · intro b hb d _ rest
        exact readRow_row (hrows b hb) _
      · have hlen := @length_intercalate [',', ' '] ((r :: rows).map row) fun item hitem => by
          obtain ⟨r, -, rfl⟩ := List.mem_map.1 hitem
          exact List.cons_ne_nil _ _
        simp only [List.length_append, List.length_map, List.length_cons] at hlen ⊢
        omega

end SqlText
