import VgiCbor.Lib.Gregorian

/-!
# Instants as text

Decimal numbers padded with zeros to a width, and the reading of the text form
`YYYY-MM-DDThh:mm:ss[.fraction]Z`, with a sign and more digits for years that need them.
The digits of the fraction are a decimal fraction of a second, however many there are.
-/

namespace InstantText

open Gregorian

/-! ## Padded numbers -/

/-- Zeros in front, up to the width. -/
def zeroPad (width : Nat) (digits : List Char) : List Char :=
  List.replicate (width - digits.length) '0' ++ digits

/-- A number padded to a width; the sign counts as one of the characters. -/
def padded (width : Nat) (n : Int) : List Char :=
  if n < 0 then '-' :: zeroPad (width - 1) (Nat.toDigits 10 n.natAbs)
  else zeroPad width (Nat.toDigits 10 n.natAbs)

/-- The number that digits denote. -/
abbrev number (digits : List Char) : Nat := Nat.ofDigitChars 10 digits 0

@[simp] theorem number_zeroPad (width n : Nat) :
    number (zeroPad width (Nat.toDigits 10 n)) = n := by
  simp [number, zeroPad, Nat.ofDigitChars_append]

theorem zeroPad_isDigit {width n : Nat} {c : Char} (h : c ∈ zeroPad width (Nat.toDigits 10 n)) :
    c.isDigit = true := by
  rcases List.mem_append.1 h with h | h
  · rw [List.eq_of_mem_replicate h]
    decide
  · exact Nat.isDigit_of_mem_toDigits (by decide) (by decide) h

/-- What fits the width is exactly as wide. -/
theorem zeroPad_length {width n : Nat} (hwidth : 0 < width) (hn : n < 10 ^ width) :
    (zeroPad width (Nat.toDigits 10 n)).length = width := by
  have hlen := (Nat.length_toDigits_le_iff (by decide) hwidth).2 hn
  rw [zeroPad, List.length_append, List.length_replicate]
  omega

/-- What does not fit is wider. -/
theorem lt_zeroPad_length {width n : Nat} (hwidth : 0 < width) (hn : 10 ^ width ≤ n) :
    width < (zeroPad width (Nat.toDigits 10 n)).length := by
  have hlen := (Nat.length_toDigits_le_iff (b := 10) (n := n) (by decide) hwidth).not.2 hn.not_gt
  rw [zeroPad, List.length_append, List.length_replicate]
  omega

theorem padded_of_nonneg {n : Int} (hn : 0 ≤ n) (width : Nat) :
    padded width n = zeroPad width (Nat.toDigits 10 n.natAbs) :=
  if_neg (not_lt.2 hn)

/-- Two digits, for the fields of a date and a time of day. -/
theorem padded_two {n : Int} (hn : 0 ≤ n) (hn' : n < 100) :
    ∃ c d : Char, padded 2 n = [c, d] ∧ (number [c, d] : Int) = n := by
  have hlen := @zeroPad_length 2 n.natAbs (by decide) (by omega)
  obtain ⟨c, d, hpad⟩ := List.length_eq_two.1 hlen
  refine ⟨c, d, (padded_of_nonneg hn 2).trans hpad, ?_⟩
  rw [← hpad, number_zeroPad]
  omega

/-! ## Reading -/

/-- The digits in front are taken off. -/
theorem span_digits {digits : List Char} (h : ∀ c ∈ digits, c.isDigit = true) {c : Char}
    (hc : c.isDigit = false) (rest : List Char) :
    (digits ++ c :: rest).takeWhile Char.isDigit = digits ∧
      (digits ++ c :: rest).dropWhile Char.isDigit = c :: rest := by
  rw [List.takeWhile_append_of_pos h, List.dropWhile_append_of_pos h,
    List.takeWhile_cons_of_neg (by simp [hc]), List.dropWhile_cons_of_neg (by simp [hc])]
  exact ⟨List.append_nil _, rfl⟩

/-- The year, and what stands behind it. -/
def readYear (text : List Char) : Int × List Char :=
  match text with
  | '-' :: rest => (-number (rest.takeWhile Char.isDigit), rest.dropWhile Char.isDigit)
  | _ => (number (text.takeWhile Char.isDigit), text.dropWhile Char.isDigit)

/-- The fraction of a second, between the seconds and the final `Z`. -/
def readFraction : List Char → Option ℚ
  | ['Z'] => some 0
  | '.' :: rest =>
      let digits := rest.takeWhile Char.isDigit
      if rest.dropWhile Char.isDigit = ['Z'] then some (number digits / 10 ^ digits.length)
      else none
  | _ => none

/-- The instant a text names, in seconds since the epoch.  It reads what is printed, and is
not a parser for all of RFC 3339. -/
def readInstant (text : List Char) : Option ℚ :=
  match readYear text with
  | (year, '-' :: m₁ :: m₂ :: '-' :: d₁ :: d₂ :: 'T' :: h₁ :: h₂ :: ':' :: i₁ :: i₂ :: ':' :: s₁ ::
      s₂ :: rest) =>
      let t : DateTime := ⟨year, number [m₁, m₂], number [d₁, d₂], number [h₁, h₂],
        number [i₁, i₂], number [s₁, s₂]⟩
      (readFraction rest).map fun fraction => t.epochSeconds + fraction
  | _ => none

theorem readYear_padded (year : Int) (width : Nat) {c : Char} (hc : c.isDigit = false)
    (rest : List Char) : readYear (padded width year ++ c :: rest) = (year, c :: rest) := by
  unfold padded
  split_ifs with hsign
  · obtain ⟨htake, hdrop⟩ := @span_digits (zeroPad (width - 1) (Nat.toDigits 10 year.natAbs))
      (fun _ => zeroPad_isDigit) c hc rest
    rw [List.cons_append, readYear, htake, hdrop, number_zeroPad, Prod.mk.injEq]
    exact ⟨by omega, rfl⟩
  · obtain ⟨htake, hdrop⟩ := @span_digits (zeroPad width (Nat.toDigits 10 year.natAbs))
      (fun _ => zeroPad_isDigit) c hc rest
    -- The text does not begin with a sign.
    obtain ⟨d, digits, hpad⟩ : ∃ d digits,
        zeroPad width (Nat.toDigits 10 year.natAbs) = d :: digits := by
      cases hpad : zeroPad width (Nat.toDigits 10 year.natAbs) with
      | nil => simp [zeroPad] at hpad
      | cons d digits => exact ⟨d, digits, rfl⟩
    have hdigit : d.isDigit = true := zeroPad_isDigit (hpad ▸ List.mem_cons_self)
    have hsign' : d ≠ '-' := by
      rintro rfl
      cases hdigit
    have hread : readYear (zeroPad width (Nat.toDigits 10 year.natAbs) ++ c :: rest) =
        ((number ((zeroPad width (Nat.toDigits 10 year.natAbs) ++ c :: rest).takeWhile
            Char.isDigit) : Int),
          (zeroPad width (Nat.toDigits 10 year.natAbs) ++ c :: rest).dropWhile Char.isDigit) := by
      rw [hpad, List.cons_append, readYear]
      rintro rest' heq
      cases heq
      exact hsign' rfl
    rw [hread, htake, hdrop, number_zeroPad, Prod.mk.injEq]
    exact ⟨by omega, rfl⟩

/-- The text of a date and a time of day, in front of the fraction. -/
def dateTimeText (t : DateTime) : List Char :=
  padded 4 t.year ++ '-' :: (padded 2 t.month ++ '-' :: (padded 2 t.day ++ 'T' ::
    (padded 2 t.hour ++ ':' :: (padded 2 t.minute ++ ':' :: padded 2 t.second))))

/-- Printed fields are read back, with whatever fraction stands behind them. -/
theorem readInstant_dateTimeText {t : DateTime} (h : t.Valid) (rest : List Char) :
    readInstant (dateTimeText t ++ rest) =
      (readFraction rest).map fun fraction => (t.epochSeconds : ℚ) + fraction := by
  have hlength : monthLength t.year t.month ≤ 31 := by
    unfold monthLength
    split_ifs <;> decide
  obtain ⟨hmonth, hmonth'⟩ := h.month
  obtain ⟨hday, hday'⟩ := h.day
  obtain ⟨hhour, hhour'⟩ := h.hour
  obtain ⟨hminute, hminute'⟩ := h.minute
  obtain ⟨hsecond, hsecond'⟩ := h.second
  obtain ⟨m₁, m₂, hm, hmVal⟩ := padded_two (n := t.month) (by omega) (by omega)
  obtain ⟨d₁, d₂, hd, hdVal⟩ := padded_two (n := t.day) (by omega) (by omega)
  obtain ⟨h₁, h₂, hh, hhVal⟩ := padded_two (n := t.hour) (by omega) (by omega)
  obtain ⟨i₁, i₂, hi, hiVal⟩ := padded_two (n := t.minute) (by omega) (by omega)
  obtain ⟨s₁, s₂, hs, hsVal⟩ := padded_two (n := t.second) (by omega) (by omega)
  have htext : dateTimeText t ++ rest = padded 4 t.year ++ '-' :: m₁ :: m₂ :: '-' :: d₁ :: d₂ ::
      'T' :: h₁ :: h₂ :: ':' :: i₁ :: i₂ :: ':' :: s₁ :: s₂ :: rest := by
    simp only [dateTimeText, hm, hd, hh, hi, hs, List.append_assoc, List.cons_append,
      List.nil_append]
  rw [htext, readInstant, readYear_padded t.year 4 (by decide)]
  simp only [hmVal, hdVal, hhVal, hiVal, hsVal]

/-- The fraction that digits denote. -/
theorem readFraction_digits {digits : List Char} (h : ∀ c ∈ digits, c.isDigit = true) :
    readFraction ('.' :: (digits ++ ['Z'])) =
      some ((number digits : ℚ) / 10 ^ digits.length) := by
  obtain ⟨htake, hdrop⟩ := span_digits h (show 'Z'.isDigit = false by decide) []
  rw [readFraction, htake, hdrop, if_pos rfl]

end InstantText
