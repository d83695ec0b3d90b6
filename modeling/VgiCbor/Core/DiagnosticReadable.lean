import VgiCbor.Core.Diagnostic
import VgiCbor.Core.Json
import VgiCbor.Lib.InstantText

/-!
# Reading diagnostic notation back

A rendered value can be told apart from any other one behind it and in front of a closing
delimiter, but for one thing: a float of magnitude `1e16` or more is written without a
decimal, like an integer.  Two values render alike exactly if they are the same up to such
floats against integers (`render_eq_iff`).
-/

namespace VgiCbor.Diagnostic

open MachineInt Binary64 UniqueReading InstantText

/-! ## The text of integers -/

theorem mem_signed {negative : Bool} {digits : List Char} {c : Char}
    (h : c ∈ signed negative digits) : c = '-' ∨ c ∈ digits := by
  unfold signed at h
  split_ifs at h
  · exact List.mem_cons.1 h
  · exact .inr h

/-- Digits that are no sign are told apart behind one. -/
theorem signed_inj {a b : Bool} {x y : List Char} (hx : ∀ c ∈ x, c ≠ '-') (hy : ∀ c ∈ y, c ≠ '-')
    (h : signed a x = signed b y) : a = b ∧ x = y := by
  cases a with
  | true =>
      cases b with
      | true => exact ⟨rfl, (List.cons.inj h).2⟩
      | false =>
          have hmem : '-' ∈ signed false y := h ▸ List.mem_cons_self
          exact absurd rfl (hy '-' hmem)
  | false =>
      cases b with
      | true =>
          have hmem : '-' ∈ signed false x := h.symm ▸ List.mem_cons_self
          exact absurd rfl (hx '-' hmem)
      | false => exact ⟨rfl, h⟩

theorem isDigit_toDigits {n : Nat} {c : Char} (h : c ∈ Nat.toDigits 10 n) : c.isDigit = true :=
  Nat.isDigit_of_mem_toDigits (by decide) (by decide) h

theorem ne_of_isDigit {c d : Char} (h : c.isDigit = true) (hd : d.isDigit = false) : c ≠ d := by
  rintro rfl
  rw [h] at hd
  cases hd

theorem toDigits_inj {n m : Nat} (h : Nat.toDigits 10 n = Nat.toDigits 10 m) : n = m := by
  have hread := congrArg number h
  simpa [number] using hread

theorem toString_int (n : Int) :
    (toString n).toList = signed (decide (n < 0)) (Nat.toDigits 10 n.natAbs) := by
  rw [Int.toString_eq_repr, Int.repr_eq_if, signed]
  by_cases hn : n < 0
  · rw [if_neg (by omega), if_pos (by simpa using hn), String.toList_append, Nat.toList_repr,
      show (-n).toNat = n.natAbs by omega]
    rfl
  · rw [if_pos (by omega), if_neg (by simpa using hn), Nat.toList_repr,
      show n.toNat = n.natAbs by omega]

/-! ## The text of floats -/

/-- What the standard library documents of the text of a finite float: it reads back as the
float, and it has no exponent, and no fraction where the float is integral. -/
structure Displays (fp : FloatOps) : Prop where
  reads_back : ∀ f g : F64, f.isFinite = true → g.isFinite = true →
    fp.display f = fp.display g → f = g
  integral : ∀ (f : F64) (q : ℚ), f.toRat? = some q → q.den = 1 → q ≠ 0 →
    ∃ n : Int, fp.display f = toString n
  fractional : ∀ (f : F64) (q : ℚ), f.toRat? = some q → q.den ≠ 1 →
    ∃ whole fraction, (fp.display f).toList =
        signed f.isNegative (Nat.toDigits 10 whole) ++ '.' :: fraction ∧
      (∀ c ∈ fraction, c.isDigit = true) ∧ number fraction ≠ 0

/-- Integral, and too large for a decimal to be written. -/
def isLong (f : F64) : Bool := f.toRat?.any fun q => q.den == 1 && decide (10 ^ 16 ≤ |q|)

/-- The float is written without a decimal, with the digits of the integer.  These are the
pairs that the notation confuses. -/
def ShownAs (fp : FloatOps) (f : F64) (n : Integer) : Prop :=
  isLong f = true ∧ fp.display f = toString n.val

/-- What the text of a number is recognized as. -/
inductive NumberForm where
  | nan
  | infinite
  | decimal
  | whole
  deriving DecidableEq

/-- The texts a float can have.  A fractional one is displayed with a fraction that is not
zero, and a long integral one like the integer it is equal to. -/
inductive FloatText (fp : FloatOps) (f : F64) : NumberForm → List Char → Prop
  | nan (h : f.isNan = true) : FloatText fp f .nan "NaN".toList
  | infinite (hfinite : f.isFinite = false) (hnan : f.isNan = false) :
      FloatText fp f .infinite (signed f.isNegative "Infinity".toList)
  | short (n : Int) (h : f.toRat? = some (n : ℚ)) :
      FloatText fp f .decimal (signed f.isNegative (Nat.toDigits 10 n.natAbs) ++ '.' :: ['0'])
  | fractional (whole : Nat) (fraction : List Char) (hfinite : f.isFinite = true)
      (hfraction : ∀ c ∈ fraction, c.isDigit = true) (hne : number fraction ≠ 0)
      (h : (fp.display f).toList =
        signed f.isNegative (Nat.toDigits 10 whole) ++ '.' :: fraction) :
      FloatText fp f .decimal (signed f.isNegative (Nat.toDigits 10 whole) ++ '.' :: fraction)
  | long (n : Int) (hlong : isLong f = true) (h : fp.display f = toString n) :
      FloatText fp f .whole (toString n).toList

theorem isFinite_of_isNan {f : F64} (h : f.isNan = true) : f.isFinite = false := by
  simp only [F64.isNan, F64.isFinite, Bool.and_eq_true, beq_iff_eq, bne_eq_false_iff_eq] at *
  exact h.1

theorem toRat?_of_isLong {f : F64} (h : isLong f = true) :
    ∃ q : ℚ, f.toRat? = some q ∧ q.den = 1 ∧ 10 ^ 16 ≤ |q| := by
  obtain ⟨q, hq, hlong⟩ := (Option.any_eq_true _ _).1 h
  simp only [Bool.and_eq_true, beq_iff_eq, decide_eq_true_eq] at hlong
  exact ⟨q, hq, hlong⟩

variable {fp : FloatOps}

theorem renderFloat_text (hdisplay : Displays fp) (f : F64) :
    ∃ form, FloatText fp f form (renderFloat fp f) := by
  unfold renderFloat
  by_cases hnan : f.isNan = true
  · rw [if_pos hnan]
    exact ⟨_, .nan hnan⟩
  rw [if_neg hnan]
  cases hfinite : f.isFinite with
  | false =>
      have htext : (if f.isNegative then "-Infinity" else "Infinity").toList =
          signed f.isNegative "Infinity".toList := by
        cases f.isNegative <;> rfl
      rw [if_pos (by decide), htext]
      exact ⟨_, .infinite hfinite (by simpa using hnan)⟩
  | true =>
      have hrat := F64.toRat?_of_isFinite hfinite
      generalize (if f.isNegative then -(f.significand : ℚ) else f.significand) *
        2 ^ max f.exponentField 1 / 2 ^ 1075 = q at hrat
      rw [if_neg (by decide)]
      by_cases hden : q.den = 1
      · have hint : q = (q.num : ℚ) := (Rat.coe_int_num_of_den_eq_one hden).symm
        by_cases hsmall : |q| < 10 ^ 16
        · have hshort : isShort f = true := by simp [isShort, hrat, hden, hsmall]
          have htrunc : (f.trunc?.getD 0) = q.num := by
            simp [F64.trunc?, hrat, hden]
          rw [if_pos hshort, oneDecimal, htrunc]
          exact ⟨_, .short q.num (hint ▸ hrat)⟩
        · have hshort : isShort f = false := by simp [isShort, hrat, hden, hsmall]
          have hlarge : 10 ^ 16 ≤ |q| := not_lt.1 hsmall
          have hne : q ≠ 0 := by
            rintro rfl
            norm_num at hlarge
          obtain ⟨n, hn⟩ := hdisplay.integral f q hrat hden hne
          rw [if_neg (by simp [hshort]), hn]
          exact ⟨_, .long n (by simp [isLong, hrat, hden, hlarge]) hn⟩
      · have hshort : isShort f = false := by simp [isShort, hrat, hden]
        obtain ⟨whole, fraction, htext, hfraction, hne⟩ := hdisplay.fractional f q hrat hden
        rw [if_neg (by simp [hshort]), htext]
        exact ⟨_, .fractional whole fraction hfinite hfraction hne htext⟩

/-! ## Numbers are told apart -/

/-- The parts of a number in its text. -/
def isNumeral (c : Char) : Bool := c.isDigit || c == '-' || c == '.'

/-- What the text of a number is recognized as: a letter tells the special values, and a point
tells a float from an integer. -/
def numberForm (text : List Char) : NumberForm :=
  if 'N' ∈ text then .nan
  else if 'I' ∈ text then .infinite
  else if '.' ∈ text then .decimal
  else .whole

theorem numberForm_numeral {text : List Char} (h : ∀ c ∈ text, isNumeral c = true) :
    numberForm text = if '.' ∈ text then .decimal else .whole := by
  have hN : 'N' ∉ text := fun hmem => absurd (h _ hmem) (by decide)
  have hI : 'I' ∉ text := fun hmem => absurd (h _ hmem) (by decide)
  rw [numberForm, if_neg hN, if_neg hI]

theorem isNumeral_of_mem_signed {negative : Bool} {n : Nat} {c : Char}
    (h : c ∈ signed negative (Nat.toDigits 10 n)) : isNumeral c = true ∧ c ≠ '.' := by
  rcases mem_signed h with rfl | hdigit
  · decide
  · have hc := isDigit_toDigits hdigit
    exact ⟨by simp [isNumeral, hc], ne_of_isDigit hc (by decide)⟩

theorem isNumeral_of_mem_decimal {negative : Bool} {n : Nat} {fraction : List Char}
    (hfraction : ∀ c ∈ fraction, c.isDigit = true) {c : Char}
    (h : c ∈ signed negative (Nat.toDigits 10 n) ++ '.' :: fraction) : isNumeral c = true := by
  rcases List.mem_append.1 h with h | h
  · exact (isNumeral_of_mem_signed h).1
  · rcases List.mem_cons.1 h with rfl | h
    · decide
    · simp [isNumeral, hfraction c h]

theorem isNumeral_of_mem_int {n : Int} {c : Char} (h : c ∈ (toString n).toList) :
    isNumeral c = true ∧ c ≠ '.' := by
  rw [toString_int] at h
  exact isNumeral_of_mem_signed h

theorem numberForm_decimal (negative : Bool) (n : Nat) {fraction : List Char}
    (hfraction : ∀ c ∈ fraction, c.isDigit = true) :
    numberForm (signed negative (Nat.toDigits 10 n) ++ '.' :: fraction) = .decimal := by
  rw [numberForm_numeral fun c => isNumeral_of_mem_decimal hfraction, if_pos (by simp)]

theorem numberForm_int (n : Int) : numberForm (toString n).toList = .whole := by
  rw [numberForm_numeral fun c hc => (isNumeral_of_mem_int hc).1, if_neg]
  exact fun hmem => (isNumeral_of_mem_int hmem).2 rfl

theorem isDigit_zero : ∀ c ∈ ['0'], c.isDigit = true := List.forall_mem_singleton.2 (by decide)

theorem FloatText.form_eq {f : F64} {form : NumberForm} {text : List Char}
    (h : FloatText fp f form text) : numberForm text = form := by
  cases h with
  | nan => decide
  | infinite => cases f.isNegative <;> simp [numberForm, signed]
  | short n => exact numberForm_decimal _ _ isDigit_zero
  | fractional _ _ _ hfraction => exact numberForm_decimal _ _ hfraction
  | long n => exact numberForm_int n

/-- The parts of a decimal number are told apart. -/
theorem decimal_inj {a b : Bool} {n m : Nat} {x y : List Char}
    (h : signed a (Nat.toDigits 10 n) ++ '.' :: x = signed b (Nat.toDigits 10 m) ++ '.' :: y) :
    a = b ∧ n = m ∧ x = y := by
  have hword {negative : Bool} {k : Nat} {c : Char}
      (hc : c ∈ signed negative (Nat.toDigits 10 k)) : (c == '.') = false := by
    simpa using (isNumeral_of_mem_signed hc).2
  have hdigit {k : Nat} {c : Char} (hc : c ∈ Nat.toDigits 10 k) : c ≠ '-' :=
    ne_of_isDigit (isDigit_toDigits hc) (by decide)
  obtain ⟨hsigned, hrest⟩ := word_append_inj (fun _ => hword) (fun _ => hword)
    (show Stopped (· == '.') ('.' :: x) from rfl) (show Stopped (· == '.') ('.' :: y) from rfl) h
  obtain ⟨hsign, hdigits⟩ := signed_inj (fun _ => hdigit) (fun _ => hdigit) hsigned
  exact ⟨hsign, toDigits_inj hdigits, (List.cons.inj hrest).2⟩

/-- Integral floats of one magnitude and sign are equal. -/
theorem eq_of_natAbs_eq {f g : F64} {n m : Int} (hf : f.toRat? = some (n : ℚ))
    (hg : g.toRat? = some (m : ℚ)) (hsign : f.isNegative = g.isNegative)
    (habs : n.natAbs = m.natAbs) : f = g := by
  have hvalue : (n : ℚ) = m := by
    have habs' : |(n : ℚ)| = |(m : ℚ)| := by
      rw [← Int.cast_abs, ← Int.cast_abs, Int.abs_eq_natAbs, Int.abs_eq_natAbs, habs]
    rw [F64.toRat?_sign hf, F64.toRat?_sign hg, hsign, habs']
  exact F64.ext_of_toRat? hf (hvalue ▸ hg) hsign

/-- Floats with one text are equal, or neither is a number.  All `NaN`s share their text. -/
theorem floatText_inj (hdisplay : Displays fp) {f g : F64} {form : NumberForm}
    {text text' : List Char} (hf : FloatText fp f form text) (hg : FloatText fp g form text')
    (h : text = text') : f = g ∨ f.isNan = true ∧ g.isNan = true := by
  cases hf with
  | nan hf =>
      cases hg with
      | nan hg => exact .inr ⟨hf, hg⟩
  | infinite hfinite hnan =>
      cases hg with
      | infinite hfinite' hnan' =>
          obtain ⟨hsign, -⟩ := signed_inj (by simp) (by simp) h
          exact .inl (F64.ext_of_infinite hfinite hnan hfinite' hnan' hsign)
  | short n hn =>
      cases hg with
      | short m hm =>
          obtain ⟨hsign, habs, -⟩ := decimal_inj h
          exact .inl (eq_of_natAbs_eq hn hm hsign habs)
      | fractional _ _ _ _ hne =>
          -- A fraction that is displayed is not zero.
          obtain ⟨-, -, rfl⟩ := decimal_inj h
          exact absurd (by decide) hne
  | fractional _ _ hfinite _ hne htext =>
      cases hg with
      | short m =>
          obtain ⟨-, -, rfl⟩ := decimal_inj h
          exact absurd (by decide) hne
      | fractional _ _ hfinite' _ _ htext' =>
          rw [← htext, ← htext', String.toList_inj] at h
          exact .inl (hdisplay.reads_back f g hfinite hfinite' h)
  | long n hlong hn =>
      cases hg with
      | long m hlong' hm =>
          obtain ⟨q, hq, -⟩ := toRat?_of_isLong hlong
          obtain ⟨q', hq', -⟩ := toRat?_of_isLong hlong'
          rw [String.toList_inj, ← hn, ← hm] at h
          exact .inl (hdisplay.reads_back f g (F64.toRat?_isSome hq) (F64.toRat?_isSome hq') h)

/-- Floats that render alike are equal, or neither is a number. -/
theorem renderFloat_inj (hdisplay : Displays fp) {f g : F64}
    (h : renderFloat fp f = renderFloat fp g) : f = g ∨ f.isNan = true ∧ g.isNan = true := by
  obtain ⟨form, hf⟩ := renderFloat_text hdisplay f
  obtain ⟨form', hg⟩ := renderFloat_text hdisplay g
  have hform : form = form' := by rw [← hf.form_eq, h, hg.form_eq]
  subst hform
  exact floatText_inj hdisplay hf hg h

/-- Only a float that is written without a decimal renders like an integer, and then like the
integer it is equal to. -/
theorem renderFloat_eq_int_iff (hdisplay : Displays fp) {f : F64} {n : Integer} :
    renderFloat fp f = (toString n.val).toList ↔ ShownAs fp f n := by
  constructor
  · intro h
    obtain ⟨form, hf⟩ := renderFloat_text hdisplay f
    have hform := hf.form_eq
    rw [h, numberForm_int] at hform
    subst hform
    generalize htext : renderFloat fp f = text at hf
    cases hf with
    | long m hlong hm =>
        rw [h, String.toList_inj] at htext
        exact ⟨hlong, hm.trans htext.symm⟩
  · rintro ⟨hlong, htext⟩
    obtain ⟨q, hq, hden, hlarge⟩ := toRat?_of_isLong hlong
    have hfinite := F64.toRat?_isSome hq
    have hnan : f.isNan ≠ true := by
      intro hnan
      rw [isFinite_of_isNan hnan] at hfinite
      cases hfinite
    have hshort : isShort f = false := by simp [isShort, hq, hlarge]
    rw [renderFloat, if_neg hnan, if_neg (by simp [hfinite]), if_neg (by simp [hshort]), htext]

/-! ## Values that read alike -/

mutual

/-- The same value, but that a float may stand for an integer it is `mixed` up with; `NaN`s
are the same. -/
def Like (mixed : F64 → Integer → Prop) : Value → Value → Prop
  | .null, .null => True
  | .bool b, .bool c => b = c
  | .integer n, .integer m => n = m
  | .float f, .float g => f = g ∨ f.isNan = true ∧ g.isNan = true
  | .float f, .integer n => mixed f n
  | .integer n, .float f => mixed f n
  | .text s, .text t => s = t
  | .bytes b, .bytes c => b = c
  | .array items, .array items' => LikeItems mixed items items'
  | .map entries, .map entries' => LikeEntries mixed entries entries'
  | .tag t v, .tag u w => t = u ∧ Like mixed v w
  | _, _ => False

/-- Item by item alike. -/
def LikeItems (mixed : F64 → Integer → Prop) : List Value → List Value → Prop
  | [], [] => True
  | v :: vs, w :: ws => Like mixed v w ∧ LikeItems mixed vs ws
  | _, _ => False

/-- Entry by entry alike, key and value. -/
def LikeEntries (mixed : F64 → Integer → Prop) :
    List (Value × Value) → List (Value × Value) → Prop
  | [], [] => True
  | (k, v) :: es, (k', v') :: es' => (Like mixed k k' ∧ Like mixed v v') ∧ LikeEntries mixed es es'
  | _, _ => False

end

/-- The same value: floats are compared as they are, with all `NaN`s identified.  On all other
scalars this is equality. -/
abbrev Same : Value → Value → Prop := Like fun _ _ => False

/-- Different values that differ in nothing but floats of magnitude `1e16` or more that stand
against the integers with the same digits. -/
def Confused (fp : FloatOps) (v w : Value) : Prop := Like (ShownAs fp) v w ∧ ¬ Same v w

theorem likeItems_iff {mixed : F64 → Integer → Prop} {items items' : List Value} :
    LikeItems mixed items items' ↔ List.Forall₂ (Like mixed) items items' := by
  induction items generalizing items' with
  | nil => cases items' <;> simp [LikeItems]
  | cons v vs ih => cases items' <;> simp [LikeItems, ih]

theorem likeEntries_iff {mixed : F64 → Integer → Prop} {entries entries' : List (Value × Value)} :
    LikeEntries mixed entries entries' ↔
      List.Forall₂ (fun e e' => Like mixed e.1 e'.1 ∧ Like mixed e.2 e'.2) entries entries' := by
  induction entries generalizing entries' with
  | nil => cases entries' <;> simp [LikeEntries]
  | cons e es ih => cases entries' <;> simp [LikeEntries, ih]

/-! ## The parts of a text -/

/-- What closes a value, or separates it from the next one. -/
def isCloser (c : Char) : Bool := c == ',' || c == ':' || c == ']' || c == '\x7d' || c == ')'

/-- What cannot stand in the first word of a value. -/
def isDelim (c : Char) : Bool :=
  isCloser c || c == '\x22' || c == '\x27' || c == '[' || c == '\x7b' || c == '('

/-- The form of a value.  It is recognized by what stands behind the first word: a quote, a
bracket, a brace, a parenthesis or none of these. -/
inductive Form where
  | scalar
  | text
  | bytes
  | array
  | map
  | tag
  deriving DecidableEq

def form : Value → Form
  | .text _ => .text
  | .bytes _ => .bytes
  | .array _ => .array
  | .map _ => .map
  | .tag _ _ => .tag
  | _ => .scalar

/-- The form that is recognized behind the first word. -/
def formOf : List Char → Form
  | [] => .scalar
  | c :: _ =>
      if c = '\x22' then .text
      else if c = '\x27' then .bytes
      else if c = '[' then .array
      else if c = '\x7b' then .map
      else if c = '(' then .tag
      else .scalar

/-- The first word of the text of a value. -/
def word (fp : FloatOps) : Value → List Char
  | .text _ | .array _ | .map _ => []
  | .bytes _ => ['h']
  | .tag t _ => Nat.toDigits 10 t.toNat
  | v => render fp v

/-- What stands behind the first word. -/
def body (fp : FloatOps) : Value → List Char
  | .text s => '\x22' :: (s.toList.flatMap escapeChar ++ ['\x22'])
  | .bytes b => '\x27' :: (b.flatMap hexPair ++ ['\x27'])
  | .array items => '[' :: (renderItems fp true items ++ [']'])
  | .map entries => '\x7b' :: (renderEntries fp true entries ++ ['\x7d'])
  | .tag _ inner => '(' :: (render fp inner ++ [')'])
  | _ => []

attribute [local simp] render word body

theorem render_eq (v : Value) : render fp v = word fp v ++ body fp v := by
  cases v with
  | bool b => cases b <;> simp
  | text s => simp
  | bytes b => simp
  | array items => simp
  | map entries => simp
  | tag t inner => simp
  | _ => simp

theorem formOf_body {v : Value} {rest : List Char} (h : Stopped isCloser rest) :
    formOf (body fp v ++ rest) = form v := by
  have hscalar : formOf rest = .scalar := by
    cases rest with
    | nil => rfl
    | cons c rest =>
        have hc : isCloser c = true := h
        simp only [isCloser, Bool.or_eq_true, beq_iff_eq] at hc
        rcases hc with (((rfl | rfl) | rfl) | rfl) | rfl <;> rfl
  cases v with
  | text s => rfl
  | bytes b => rfl
  | array items => rfl
  | map entries => rfl
  | tag t inner => rfl
  | _ => exact hscalar

/-- A closer or the body of a value ends a word. -/
theorem stopped_body {v : Value} {rest : List Char} (h : Stopped isCloser rest) :
    Stopped isDelim (body fp v ++ rest) := by
  have hscalar : Stopped isDelim rest := by
    cases rest with
    | nil => trivial
    | cons c rest =>
        have hc : isCloser c = true := h
        show isDelim c = true
        simp [isDelim, hc]
  cases v with
  | text s => rfl
  | bytes b => rfl
  | array items => rfl
  | map entries => rfl
  | tag t inner => rfl
  | _ => exact hscalar

theorem isDelim_eq_false {c : Char} (h : c.isAlpha = true ∨ isNumeral c = true) :
    isDelim c = false := by
  by_contra hdelim
  rw [Bool.not_eq_false] at hdelim
  simp only [isDelim, isCloser, Bool.or_eq_true, beq_iff_eq] at hdelim
  rcases hdelim with ((((((((rfl | rfl) | rfl) | rfl) | rfl) | rfl) | rfl) | rfl) | rfl) | rfl
  all_goals exact absurd h (by decide)

/-- The words are letters and the parts of numbers. -/
theorem word_not_delim (hdisplay : Displays fp) (v : Value) :
    ∀ c ∈ word fp v, isDelim c = false := by
  have hletters (text : String) (h : ∀ c ∈ text.toList, c.isAlpha = true) :
      ∀ c ∈ text.toList, isDelim c = false := fun c hc => isDelim_eq_false (.inl (h c hc))
  have hinfinity := hletters "Infinity" (by simp)
  cases v with
  | null => exact hletters "null" (by simp)
  | bool b =>
      cases b with
      | true => exact hletters "true" (by simp)
      | false => exact hletters "false" (by simp)
  | integer n => exact fun c hc => isDelim_eq_false (.inr (isNumeral_of_mem_int hc).1)
  | float f =>
      obtain ⟨_, htext⟩ := renderFloat_text hdisplay f
      simp only [word, render]
      generalize renderFloat fp f = text at htext
      cases htext with
      | nan => exact hletters "NaN" (by simp)
      | infinite =>
          intro c hc
          rcases mem_signed hc with rfl | hc
          · rfl
          · exact hinfinity c hc
      | short n =>
          exact fun c hc => isDelim_eq_false (.inr (isNumeral_of_mem_decimal isDigit_zero hc))
      | fractional _ _ _ hfraction =>
          exact fun c hc => isDelim_eq_false (.inr (isNumeral_of_mem_decimal hfraction hc))
      | long n => exact fun c hc => isDelim_eq_false (.inr (isNumeral_of_mem_int hc).1)
  | bytes b => exact hletters "h" (by simp)
  | tag t inner =>
      intro c hc
      exact isDelim_eq_false (.inr (by simp [isNumeral, isDigit_toDigits hc]))
  | text s => simp [word]
  | array items => simp [word]
  | map entries => simp [word]

/-- In front of a closer the form, the first word and the rest of a value are told apart.
This is the step that the induction repeats at every level. -/
theorem render_parts (hdisplay : Displays fp) {v w : Value} {s t : List Char}
    (hs : Stopped isCloser s) (ht : Stopped isCloser t)
    (h : render fp v ++ s = render fp w ++ t) :
    form v = form w ∧ word fp v = word fp w ∧ body fp v ++ s = body fp w ++ t := by
  rw [render_eq v, render_eq w, List.append_assoc, List.append_assoc] at h
  obtain ⟨hword, hbody⟩ := word_append_inj (word_not_delim hdisplay v) (word_not_delim hdisplay w)
    (stopped_body hs) (stopped_body ht) h
  refine ⟨?_, hword, hbody⟩
  rw [← formOf_body hs, hbody, formOf_body ht]

/-! ## Unique reading -/

/-- A number begins with a sign, a digit or a capital letter. -/
theorem number_ne_keyword (hdisplay : Displays fp) {v : Value}
    (hv : (∃ n, v = .integer n) ∨ ∃ f, v = .float f) {c : Char} (rest : List Char)
    (hc : c = 'n' ∨ c = 't' ∨ c = 'f') : render fp v ≠ c :: rest := by
  have hkeyword : isNumeral c = false ∧ c ≠ 'N' ∧ c ≠ 'I' := by
    rcases hc with rfl | rfl | rfl <;> decide
  intro htext
  have hmem : c ∈ render fp v := htext ▸ List.mem_cons_self
  rcases hv with ⟨n, rfl⟩ | ⟨f, rfl⟩
  · rw [render] at hmem
    rw [(isNumeral_of_mem_int hmem).1] at hkeyword
    cases hkeyword.1
  · obtain ⟨_, hf⟩ := renderFloat_text hdisplay f
    rw [render] at hmem htext
    have hnumeral : isNumeral c ≠ true := by simp [hkeyword.1]
    generalize renderFloat fp f = text at hf htext hmem
    cases hf with
    | nan => exact hkeyword.2.1 (List.cons.inj htext).1.symm
    | infinite =>
        cases hsign : f.isNegative with
        | true =>
            rw [hsign] at htext
            exact hnumeral ((List.cons.inj htext).1 ▸ rfl)
        | false =>
            rw [hsign] at htext
            exact hkeyword.2.2 (List.cons.inj htext).1.symm
    | short n => exact hnumeral (isNumeral_of_mem_decimal isDigit_zero hmem)
    | fractional _ _ _ hfraction => exact hnumeral (isNumeral_of_mem_decimal hfraction hmem)
    | long n => exact hnumeral (isNumeral_of_mem_int hmem).1

/-- Scalars with one text are alike. -/
theorem scalar_inj (hdisplay : Displays fp) {v w : Value} (hv : form v = .scalar)
    (hw : form w = .scalar) (h : render fp v = render fp w) : Like (ShownAs fp) v w := by
  have hkeyword := @number_ne_keyword fp hdisplay
  cases v with
  | null =>
      cases w with
      | null => trivial
      | bool b => cases b <;> simp [render] at h
      | integer n => exact absurd h.symm (hkeyword (.inl ⟨n, rfl⟩) _ (.inl rfl))
      | float f => exact absurd h.symm (hkeyword (.inr ⟨f, rfl⟩) _ (.inl rfl))
      | _ => cases hw
  | bool b =>
      cases w with
      | null => cases b <;> simp [render] at h
      | bool b' => cases b <;> cases b' <;> simp [render] at h <;> rfl
      | integer n =>
          cases b with
          | true => exact absurd h.symm (hkeyword (.inl ⟨n, rfl⟩) _ (.inr (.inl rfl)))
          | false => exact absurd h.symm (hkeyword (.inl ⟨n, rfl⟩) _ (.inr (.inr rfl)))
      | float f =>
          cases b with
          | true => exact absurd h.symm (hkeyword (.inr ⟨f, rfl⟩) _ (.inr (.inl rfl)))
          | false => exact absurd h.symm (hkeyword (.inr ⟨f, rfl⟩) _ (.inr (.inr rfl)))
      | _ => cases hw
  | integer n =>
      cases w with
      | null => exact absurd h (hkeyword (.inl ⟨n, rfl⟩) _ (.inl rfl))
      | bool b =>
          cases b with
          | true => exact absurd h (hkeyword (.inl ⟨n, rfl⟩) _ (.inr (.inl rfl)))
          | false => exact absurd h (hkeyword (.inl ⟨n, rfl⟩) _ (.inr (.inr rfl)))
      | integer m =>
          rw [render, render, String.toList_inj, Int.toString_eq_repr, Int.toString_eq_repr,
            Int.repr_inj] at h
          exact Ranged.ext_val h
      | float f => exact (renderFloat_eq_int_iff hdisplay).1 h.symm
      | _ => cases hw
  | float f =>
      cases w with
      | null => exact absurd h (hkeyword (.inr ⟨f, rfl⟩) _ (.inl rfl))
      | bool b =>
          cases b with
          | true => exact absurd h (hkeyword (.inr ⟨f, rfl⟩) _ (.inr (.inl rfl)))
          | false => exact absurd h (hkeyword (.inr ⟨f, rfl⟩) _ (.inr (.inr rfl)))
      | integer m => exact (renderFloat_eq_int_iff hdisplay).1 h
      | float g => exact renderFloat_inj hdisplay h
      | _ => cases hw
  | _ => cases hv

theorem renderItems_eq_separated (first : Bool) (items : List Value) :
    renderItems fp first items = separated ", ".toList (render fp) first items := by
  induction items generalizing first with
  | nil => rw [renderItems, separated]
  | cons v vs ih => rw [renderItems, separated, ih]

def entryText (fp : FloatOps) (e : Value × Value) : List Char :=
  render fp e.1 ++ ": ".toList ++ render fp e.2

theorem renderEntries_eq_separated (first : Bool) (entries : List (Value × Value)) :
    renderEntries fp first entries = separated ", ".toList (entryText fp) first entries := by
  induction entries generalizing first with
  | nil => rw [renderEntries, separated]
  | cons e es ih =>
      obtain ⟨k, v⟩ := e
      rw [renderEntries, separated, ih]
      rfl

theorem toString_int_ne_nil (n : Int) : (toString n).toList ≠ [] := by
  rw [toString_int]
  unfold signed
  split_ifs
  · exact List.cons_ne_nil _ _
  · exact Nat.toDigits_ne_nil

/-- A scalar is a word of its own. -/
theorem word_ne_nil (hdisplay : Displays fp) {v : Value} (hv : form v = .scalar) :
    word fp v ≠ [] := by
  cases v with
  | null => exact List.cons_ne_nil _ _
  | bool b => cases b <;> exact List.cons_ne_nil _ _
  | integer n => exact toString_int_ne_nil n.val
  | float f =>
      obtain ⟨_, hf⟩ := renderFloat_text hdisplay f
      simp only [word, render]
      generalize renderFloat fp f = text at hf
      cases hf with
      | nan => exact List.cons_ne_nil _ _
      | infinite => cases f.isNegative <;> exact List.cons_ne_nil _ _
      | short n => simp
      | fractional => simp
      | long n => exact toString_int_ne_nil n
  | _ => cases hv

/-- The text of a value does not begin with a closer. -/
theorem render_append_ne_closer (hdisplay : Displays fp) (v : Value) {c : Char}
    (hc : isCloser c = true) (s t : List Char) : render fp v ++ s ≠ c :: t := by
  intro h
  rw [render_eq, List.append_assoc] at h
  have hdelim : isDelim c = true := by simp [isDelim, hc]
  cases hword : word fp v with
  | cons d rest =>
      -- A closer is a delimiter, and cannot stand in a word.
      rw [hword] at h
      have hfalse := word_not_delim hdisplay v d (hword ▸ List.mem_cons_self)
      rw [(List.cons.inj h).1, hdelim] at hfalse
      cases hfalse
  | nil =>
      -- What opens the body of a value is no closer.
      rw [hword, List.nil_append] at h
      cases v with
      | bytes b => cases hword
      | tag t inner => exact absurd hword Nat.toDigits_ne_nil
      | text s => exact absurd ((List.cons.inj h).1 ▸ hc) (by decide)
      | array items => exact absurd ((List.cons.inj h).1 ▸ hc) (by decide)
      | map entries => exact absurd ((List.cons.inj h).1 ▸ hc) (by decide)
      | _ => exact word_ne_nil hdisplay rfl hword

theorem digitChar_inj : ∀ i j : Fin 16, Nat.digitChar i = Nat.digitChar j → i = j := by decide

theorem digitChar_ne_quote : ∀ i : Fin 16, Nat.digitChar i ≠ '\x27' := by decide

theorem hexPair_injective : Function.Injective hexPair := by
  intro a b h
  have ha := a.toNat_lt
  have hb := b.toNat_lt
  obtain ⟨hhigh, hrest⟩ := List.cons.inj h
  have hhigh' := digitChar_inj ⟨a.toNat / 16, by omega⟩ ⟨b.toNat / 16, by omega⟩ hhigh
  have hlow' := digitChar_inj ⟨a.toNat % 16, by omega⟩ ⟨b.toNat % 16, by omega⟩
    (List.cons.inj hrest).1
  rw [Fin.mk.injEq] at hhigh' hlow'
  apply UInt8.toNat_inj.1
  omega

theorem hexPair_not_quote {b : Bytes} {c : Char} (h : c ∈ b.flatMap hexPair) :
    (c == '\x27') = false := by
  obtain ⟨byte, -, hc⟩ := List.mem_flatMap.1 h
  have hbyte := byte.toNat_lt
  rw [beq_eq_false_iff_ne]
  rcases List.mem_cons.1 hc with rfl | hc
  · exact digitChar_ne_quote ⟨byte.toNat / 16, by omega⟩
  · rw [List.mem_singleton.1 hc]
    exact digitChar_ne_quote ⟨byte.toNat % 16, by omega⟩

theorem escapeChar_eq : escapeChar = escape (fun c => c == '\x22' || c == '\\') '\\' := by
  funext c
  unfold escapeChar escape
  by_cases hquote : c = '\x22'
  · subst hquote
    rfl
  · by_cases hmark : c = '\\'
    · subst hmark
      rfl
    · simp [hquote, hmark]

/-- In front of a closer scalars are told apart as far as their texts are. -/
theorem scalar_append_inj (hdisplay : Displays fp) {v w : Value} (hv : form v = .scalar)
    {s t : List Char} (hs : Stopped isCloser s) (ht : Stopped isCloser t)
    (h : render fp v ++ s = render fp w ++ t) : Like (ShownAs fp) v w ∧ s = t := by
  obtain ⟨hform, hword, hbody⟩ := render_parts hdisplay hs ht h
  have hnil {u : Value} (hu : form u = .scalar) : body fp u = [] := by
    cases u <;> first | rfl | cases hu
  have hw : form w = .scalar := hform ▸ hv
  rw [hnil hv, hnil hw] at hbody
  refine ⟨scalar_inj hdisplay hv hw ?_, hbody⟩
  rw [render_eq v, render_eq w, hword, hnil hv, hnil hw]

/-- In front of a closer the value reads in one way, up to what is written alike.  This is
what the induction over values proves. -/
def ReadsAs (fp : FloatOps) (v : Value) : Prop :=
  ∀ ⦃w : Value⦄ ⦃s t : List Char⦄, Stopped isCloser s → Stopped isCloser t →
    render fp v ++ s = render fp w ++ t → Like (ShownAs fp) v w ∧ s = t

theorem entryText_append_ne_closer (hdisplay : Displays fp) (e : Value × Value) {c : Char}
    (hc : isCloser c = true) (s t : List Char) : entryText fp e ++ s ≠ c :: t := by
  rw [entryText, List.append_assoc, List.append_assoc]
  exact render_append_ne_closer hdisplay e.1 hc _ _

/-- A colon closes the key of an entry, and what closes the entry closes its value. -/
theorem entryText_append_inj {e e' : Value × Value} (hkey : ReadsAs fp e.1)
    (hvalue : ReadsAs fp e.2) {s t : List Char} (hs : Stopped isCloser s)
    (ht : Stopped isCloser t) (h : entryText fp e ++ s = entryText fp e' ++ t) :
    (Like (ShownAs fp) e.1 e'.1 ∧ Like (ShownAs fp) e.2 e'.2) ∧ s = t := by
  have hcolon : ": ".toList = [':', ' '] := rfl
  rw [entryText, entryText, hcolon, List.append_assoc, List.append_assoc, List.append_assoc,
    List.append_assoc] at h
  obtain ⟨hkeys, hbehind⟩ := hkey (stopped_cons rfl) (stopped_cons rfl) h
  obtain ⟨hvalues, hrest⟩ := hvalue hs ht (List.cons.inj (List.cons.inj hbehind).2).2
  exact ⟨⟨hkeys, hvalues⟩, hrest⟩

/-- A comma closes an item of an array, and the bracket closes the last, so arrays are read
item by item. -/
theorem renderItems_append_inj (hdisplay : Displays fp) {items items' : List Value}
    (ih : ∀ v ∈ items, ReadsAs fp v) {s t : List Char}
    (h : renderItems fp true items ++ ']' :: s = renderItems fp true items' ++ ']' :: t) :
    LikeItems (ShownAs fp) items items' ∧ s = t := by
  rw [renderItems_eq_separated, renderItems_eq_separated] at h
  have hcomma : Stopped isCloser [',', ' '] := stopped_cons rfl
  have hbracket (v : Value) (s t : List Char) : render fp v ++ s ≠ ']' :: t :=
    render_append_ne_closer hdisplay v rfl s t
  obtain ⟨hitems, hrest⟩ := separated_append_inj (R := Like (ShownAs fp)) hcomma
    (by rintro _ _ ⟨⟩) rfl (fun v _ => hbracket v) (fun v _ => hbracket v)
    (fun v hv w _ s t hs ht hvw => ih v hv hs ht hvw) h
  exact ⟨likeItems_iff.2 hitems, hrest⟩

/-- A comma closes an entry of a map, and the brace closes the last, so maps are read entry by
entry. -/
theorem renderEntries_append_inj (hdisplay : Displays fp) {entries entries' : List (Value × Value)}
    (ih : ∀ e ∈ entries, ReadsAs fp e.1 ∧ ReadsAs fp e.2) {s t : List Char}
    (h : renderEntries fp true entries ++ '\x7d' :: s =
      renderEntries fp true entries' ++ '\x7d' :: t) :
    LikeEntries (ShownAs fp) entries entries' ∧ s = t := by
  rw [renderEntries_eq_separated, renderEntries_eq_separated] at h
  have hcomma : Stopped isCloser [',', ' '] := stopped_cons rfl
  have hbrace (e : Value × Value) (s t : List Char) : entryText fp e ++ s ≠ '\x7d' :: t :=
    entryText_append_ne_closer hdisplay e rfl s t
  obtain ⟨hentries, hrest⟩ := separated_append_inj
    (R := fun e e' => Like (ShownAs fp) e.1 e'.1 ∧ Like (ShownAs fp) e.2 e'.2) hcomma
    (by rintro _ _ ⟨⟩) rfl (fun e _ => hbrace e) (fun e _ => hbrace e)
    (fun e he e' _ s t hs ht hee => entryText_append_inj (ih e he).1 (ih e he).2 hs ht hee) h
  exact ⟨likeEntries_iff.2 hentries, hrest⟩

theorem render_append_inj (hdisplay : Displays fp) (v : Value) : ReadsAs fp v := by
  induction v with
  | text s₁ =>
      intro w s t hs ht h
      obtain ⟨hform, -, hbody⟩ := render_parts hdisplay hs ht h
      cases w with
      | text s₂ =>
          simp only [body, List.cons_append, List.append_assoc, List.nil_append,
            escapeChar_eq] at hbody
          obtain ⟨htext, hrest⟩ := escaped_append_inj rfl rfl (by decide) (List.cons.inj hbody).2
          exact ⟨String.toList_inj.1 htext, hrest⟩
      | _ => cases hform
  | bytes b₁ =>
      intro w s t hs ht h
      obtain ⟨hform, -, hbody⟩ := render_parts hdisplay hs ht h
      cases w with
      | bytes b₂ =>
          simp only [body, List.cons_append, List.append_assoc, List.nil_append] at hbody
          obtain ⟨hhex, hrest⟩ := @word_append_inj _ (· == '\x27') _ _ _ _
            (fun _ => hexPair_not_quote) (fun _ => hexPair_not_quote) (stopped_cons rfl)
            (stopped_cons rfl) (List.cons.inj hbody).2
          exact ⟨flatMap_injective (n := 2) (by decide) (fun _ => rfl) hexPair_injective hhex,
            (List.cons.inj hrest).2⟩
      | _ => cases hform
  | array items ih =>
      intro w s t hs ht h
      obtain ⟨hform, -, hbody⟩ := render_parts hdisplay hs ht h
      cases w with
      | array items' =>
          simp only [body, List.cons_append, List.append_assoc, List.nil_append] at hbody
          exact renderItems_append_inj hdisplay ih (List.cons.inj hbody).2
      | _ => cases hform
  | map entries ih =>
      intro w s t hs ht h
      obtain ⟨hform, -, hbody⟩ := render_parts hdisplay hs ht h
      cases w with
      | map entries' =>
          simp only [body, List.cons_append, List.append_assoc, List.nil_append] at hbody
          exact renderEntries_append_inj hdisplay ih (List.cons.inj hbody).2
      | _ => cases hform
  | tag u inner ih =>
      intro w s t hs ht h
      obtain ⟨hform, hword, hbody⟩ := render_parts hdisplay hs ht h
      cases w with
      | tag u' inner' =>
          simp only [body, List.cons_append, List.append_assoc, List.nil_append] at hbody
          obtain ⟨hinner, hrest⟩ := ih (stopped_cons rfl) (stopped_cons rfl) (List.cons.inj hbody).2
          exact ⟨⟨UInt64.toNat_inj.1 (toDigits_inj hword), hinner⟩, (List.cons.inj hrest).2⟩
      | _ => cases hform
  | _ =>
      intro w s t hs ht h
      exact scalar_append_inj hdisplay rfl hs ht h

theorem render_eq_of_like (hdisplay : Displays fp) {v w : Value} (h : Like (ShownAs fp) v w) :
    render fp v = render fp w := by
  induction v generalizing w with
  | null => cases w <;> first | rfl | cases h
  | bool b =>
      cases w with
      | bool b' => obtain rfl : b = b' := h; rfl
      | _ => cases h
  | integer n =>
      cases w with
      | integer m => obtain rfl : n = m := h; rfl
      | float f => exact ((renderFloat_eq_int_iff hdisplay).2 h).symm
      | _ => cases h
  | float f =>
      cases w with
      | integer n => exact (renderFloat_eq_int_iff hdisplay).2 h
      | float g =>
          rcases h with rfl | ⟨hf, hg⟩
          · rfl
          · rw [render, render, renderFloat, renderFloat, if_pos hf, if_pos hg]
      | _ => cases h
  | text s =>
      cases w with
      | text s' => obtain rfl : s = s' := h; rfl
      | _ => cases h
  | bytes b =>
      cases w with
      | bytes b' => obtain rfl : b = b' := h; rfl
      | _ => cases h
  | array items ih =>
      cases w with
      | array items' =>
          rw [Like, likeItems_iff] at h
          rw [render, render, renderItems_eq_separated, renderItems_eq_separated,
            separated_congr h fun v hv w hvw => ih v hv hvw]
      | _ => cases h
  | map entries ih =>
      cases w with
      | map entries' =>
          rw [Like, likeEntries_iff] at h
          rw [render, render, renderEntries_eq_separated, renderEntries_eq_separated,
            separated_congr h fun e he e' hee => ?_]
          rw [entryText, entryText, (ih e he).1 hee.1, (ih e he).2 hee.2]
      | _ => cases h
  | tag t inner ih =>
      cases w with
      | tag t' inner' =>
          obtain ⟨rfl, hinner⟩ : t = t' ∧ Like (ShownAs fp) inner inner' := h
          rw [render, render, ih hinner]
      | _ => cases h

/-- Two values render alike exactly if they are the same up to floats that are written
without a decimal against the integers with their digits. -/
theorem render_eq_iff (hdisplay : Displays fp) {v w : Value} :
    render fp v = render fp w ↔ Like (ShownAs fp) v w := by
  constructor
  · intro h
    have hnil : Stopped isCloser [] := trivial
    have happend : render fp v ++ [] = render fp w ++ [] := by rw [h]
    exact (render_append_inj hdisplay v hnil hnil happend).1
  · exact render_eq_of_like hdisplay

/-- Different values render differently, unless they are confused. -/
theorem diagnostic_distinguishes_iff (hdisplay : Displays fp) (v w : Value) :
    (¬ Same v w → render fp v ≠ render fp w) ↔ ¬ Confused fp v w := by
  rw [Confused, ← render_eq_iff hdisplay]
  tauto

/-! ## A display for concrete runs -/

/-- Displays integral floats as they should be, and every other one apart.  It stands in for
Rust's display in the runs below. -/
def sampleDisplay (f : F64) : String :=
  match f.toRat? with
  | some q =>
      String.ofList (
        if q.den = 1 then signed f.isNegative (Nat.toDigits 10 q.num.natAbs)
        else signed f.isNegative (Nat.toDigits 10 f.bits.toNat) ++ '.' :: ['5'])
  | none => ""

/-- A float unit with that display. -/
def sampleOps : FloatOps := { Platform.bare.fp with display := sampleDisplay }

theorem sampleDisplay_integral {f : F64} {q : ℚ} (hq : f.toRat? = some q) (hden : q.den = 1) :
    (sampleDisplay f).toList = signed f.isNegative (Nat.toDigits 10 q.num.natAbs) := by
  simp [sampleDisplay, hq, hden]

theorem sampleDisplay_fractional {f : F64} {q : ℚ} (hq : f.toRat? = some q) (hden : q.den ≠ 1) :
    (sampleDisplay f).toList =
      signed f.isNegative (Nat.toDigits 10 f.bits.toNat) ++ '.' :: ['5'] := by
  simp [sampleDisplay, hq, hden]

theorem sampleOps_displays : Displays sampleOps := by
  have hdigit {n : Nat} {c : Char} (hc : c ∈ Nat.toDigits 10 n) : c ≠ '-' :=
    ne_of_isDigit (isDigit_toDigits hc) (by decide)
  have hpoint {negative negative' : Bool} {n m : Nat} {fraction : List Char} :
      signed negative (Nat.toDigits 10 n) ≠
        signed negative' (Nat.toDigits 10 m) ++ '.' :: fraction := by
    intro h
    have hmem : '.' ∈ signed negative (Nat.toDigits 10 n) := h ▸ (by simp)
    exact (isNumeral_of_mem_signed hmem).2 rfl
  refine ⟨fun f g hf hg h => ?_, fun f q hq hden hne => ?_, fun f q hq hden => ?_⟩
  · obtain ⟨q, hq⟩ : ∃ q, f.toRat? = some q := ⟨_, F64.toRat?_of_isFinite hf⟩
    obtain ⟨r, hr⟩ : ∃ r, g.toRat? = some r := ⟨_, F64.toRat?_of_isFinite hg⟩
    have htext : (sampleDisplay f).toList = (sampleDisplay g).toList := congrArg String.toList h
    by_cases hqden : q.den = 1
    · rw [sampleDisplay_integral hq hqden] at htext
      by_cases hrden : r.den = 1
      · rw [sampleDisplay_integral hr hrden] at htext
        obtain ⟨hsign, habs⟩ := signed_inj (fun _ => hdigit) (fun _ => hdigit) htext
        rw [← Rat.coe_int_num_of_den_eq_one hqden] at hq
        rw [← Rat.coe_int_num_of_den_eq_one hrden] at hr
        exact eq_of_natAbs_eq hq hr hsign (toDigits_inj habs)
      · rw [sampleDisplay_fractional hr hrden] at htext
        exact absurd htext hpoint
    · rw [sampleDisplay_fractional hq hqden] at htext
      by_cases hrden : r.den = 1
      · rw [sampleDisplay_integral hr hrden] at htext
        exact absurd htext.symm hpoint
      · rw [sampleDisplay_fractional hr hrden] at htext
        obtain ⟨-, hbits, -⟩ := decimal_inj htext
        cases f
        cases g
        rw [F64.mk.injEq]
        exact UInt64.toNat_inj.1 hbits
  · refine ⟨q.num, String.toList_inj.1 ?_⟩
    have hsign : f.isNegative = decide (q.num < 0) := by
      have habs := F64.toRat?_sign hq
      have hpos := abs_pos.2 hne
      cases hf : f.isNegative with
      | true =>
          rw [hf, if_pos rfl] at habs
          exact (decide_eq_true (Rat.num_neg.2 (by linarith))).symm
      | false =>
          rw [hf, if_neg (by decide)] at habs
          exact (decide_eq_false (not_lt.2 (Rat.num_nonneg.2 (by linarith)))).symm
    rw [toString_int, ← hsign]
    exact sampleDisplay_integral hq hden
  · exact ⟨_, _, sampleDisplay_fractional hq hden, List.forall_mem_singleton.2 (by decide),
      by decide⟩

/-- A small float keeps its decimal, and is no integer. -/
theorem diagnostic_distinguishes_two :
    render sampleOps (.float ⟨0x4000000000000000⟩) ≠
      render sampleOps (.integer (Integer.ofI64 (I64.wrap 2))) := by
  have hlong : isLong ⟨0x4000000000000000⟩ ≠ true := by decide +kernel
  exact (diagnostic_distinguishes_iff sampleOps_displays _ _).2
    (fun hconfused => hlong hconfused.1.1) id

/-- The float `1e16` and the integer `10^16` are both written `10000000000000000`. -/
theorem large_float_reads_as_integer :
    Displays sampleOps ∧
      ¬ Same (.float ⟨0x4341C37937E08000⟩) (.integer (Integer.ofI64 (I64.wrap (10 ^ 16)))) ∧
      render sampleOps (.float ⟨0x4341C37937E08000⟩) = "10000000000000000".toList ∧
      render sampleOps (.integer (Integer.ofI64 (I64.wrap (10 ^ 16)))) =
        "10000000000000000".toList := by
  refine ⟨sampleOps_displays, id, ?_, ?_⟩
  · decide +kernel
  · decide +kernel

end VgiCbor.Diagnostic
