import Mathlib

/-!
# Percent-encoded text

Bytes are written as ASCII text: those of a set as `%` and two hexadecimal digits, the others as
the characters that they are.  Whatever the set, decoding gives the bytes back, as long as `%`
and all that is not ASCII belongs to it (`decode_encode`).
-/

namespace PercentText

/-! ## Encoding and decoding -/

def hexDigit (n : Nat) : Char := (Nat.digitChar n).toUpper

/-- A byte of the set is escaped. -/
def encodeByte (escaped : UInt8 → Bool) (b : UInt8) : List Char :=
  if escaped b then ['%', hexDigit (b.toNat / 16), hexDigit (b.toNat % 16)]
  else [Char.ofNat b.toNat]

def encode (escaped : UInt8 → Bool) (bytes : List UInt8) : List Char :=
  bytes.flatMap (encodeByte escaped)

/-- The value of a hexadecimal digit, in either case. -/
def hexValue (b : UInt8) : Option Nat :=
  let n := b.toNat
  if 0x30 ≤ n ∧ n ≤ 0x39 then some (n - 0x30)
  else if 0x41 ≤ n ∧ n ≤ 0x46 then some (n - 0x37)
  else if 0x61 ≤ n ∧ n ≤ 0x66 then some (n - 0x57)
  else none

/-- Replace each `%` before two hexadecimal digits by the byte that they stand for.  A `%`
before anything else is kept. -/
def decode : List UInt8 → List UInt8
  | [] => []
  | [b] => [b]
  | [b, c] => [b, c]
  | b :: high :: low :: rest =>
      if b = 0x25 then
        match hexValue high, hexValue low with
        | some h, some l => UInt8.ofNat (16 * h + l) :: decode rest
        | _, _ => b :: decode (high :: low :: rest)
      else b :: decode (high :: low :: rest)

/-- The bytes of ASCII characters. -/
def ascii (text : List Char) : List UInt8 := text.map fun c => UInt8.ofNat c.toNat

/-! ## Decoding undoes encoding -/

variable {escaped : UInt8 → Bool}

theorem hexValue_hexDigit {n : Nat} (h : n < 16) :
    hexValue (UInt8.ofNat (hexDigit n).toNat) = some n := by
  revert n
  decide

theorem hexDigit_ascii {n : Nat} (h : n < 16) : (hexDigit n).toNat < 0x80 := by
  revert n
  decide

/-- What is no `%` is passed on. -/
theorem decode_cons {b : UInt8} (h : b ≠ 0x25) (rest : List UInt8) :
    decode (b :: rest) = b :: decode rest := by
  cases rest with
  | nil => rfl
  | cons high rest =>
      cases rest with
      | nil => rfl
      | cons low rest => rw [decode, if_neg h]

/-- The bytes that need no escape. -/
def Plain (escaped : UInt8 → Bool) : Prop :=
  ∀ b, escaped b = false → b.toNat < 0x80 ∧ b ≠ 0x25

theorem decode_encodeByte (hplain : Plain escaped) (b : UInt8) (rest : List UInt8) :
    decode (ascii (encodeByte escaped b) ++ rest) = b :: decode rest := by
  cases hb : escaped b with
  | false =>
      obtain ⟨hascii, hne⟩ := hplain b hb
      have hchar : UInt8.ofNat (Char.ofNat b.toNat).toNat = b := by
        rw [Char.toNat_ofNat, if_pos (by left; omega), UInt8.ofNat_toNat]
      rw [encodeByte, hb]
      simp only [Bool.false_eq_true, if_false, ascii, List.map_cons, List.map_nil,
        List.cons_append, List.nil_append, hchar]
      exact decode_cons hne rest
  | true =>
      have hlt : b.toNat < 256 := UInt8.toNat_lt b
      have hvalue : UInt8.ofNat (16 * (b.toNat / 16) + b.toNat % 16) = b := by
        rw [Nat.div_add_mod, UInt8.ofNat_toNat]
      rw [encodeByte, hb]
      simp only [if_true, ascii, List.map_cons, List.map_nil, List.cons_append, List.nil_append]
      rw [decode, if_pos (by decide), hexValue_hexDigit (by omega), hexValue_hexDigit (by omega)]
      simp only [hvalue]

/-- Decoding gives back what was encoded. -/
theorem decode_encode (hplain : Plain escaped) (bytes : List UInt8) :
    decode (ascii (encode escaped bytes)) = bytes := by
  induction bytes with
  | nil => rfl
  | cons b bytes ih =>
      rw [encode, List.flatMap_cons, ascii, List.map_append]
      change decode (ascii (encodeByte escaped b) ++ ascii (encode escaped bytes)) = _
      rw [decode_encodeByte hplain, ih]

/-! ## As text -/

theorem encode_ascii (hplain : Plain escaped) (bytes : List UInt8) :
    ∀ c ∈ encode escaped bytes, c.toNat < 0x80 := by
  intro c hc
  obtain ⟨b, -, hmem⟩ := List.mem_flatMap.1 hc
  rw [encodeByte] at hmem
  have hlt : b.toNat < 256 := UInt8.toNat_lt b
  split at hmem
  · simp only [List.mem_cons, List.not_mem_nil, or_false] at hmem
    rcases hmem with rfl | rfl | rfl
    · decide
    · exact hexDigit_ascii (by omega)
    · exact hexDigit_ascii (by omega)
  · next hb =>
      obtain rfl := List.mem_singleton.1 hmem
      have hascii := (hplain b (by simpa using hb)).1
      rw [Char.toNat_ofNat, if_pos (by left; omega)]
      exact hascii

/-- The UTF-8 bytes of ASCII characters. -/
theorem utf8_ascii {text : List Char} (h : ∀ c ∈ text, c.toNat < 0x80) :
    (String.ofList text).toUTF8.data.toList = ascii text := by
  have hchar : ∀ c ∈ text, String.utf8EncodeChar c = [UInt8.ofNat c.toNat] := by
    intro c hc
    rw [String.utf8EncodeChar_eq_singleton]
    · rfl
    · have hlt := h c hc
      rw [Char.utf8Size_eq_one_iff, UInt32.le_iff_toNat_le]
      change c.toNat ≤ 127
      omega
  change (String.ofList text).toByteArray.data.toList = _
  rw [String.toByteArray_ofList, List.utf8Encode]
  simp only [List.data_toByteArray]
  rw [List.flatMap_congr hchar]
  exact List.map_eq_flatMap.symm

/-! ## Bytes that need not be text -/

/-- What follows the first byte of a character of two to four bytes: how many bytes, and the
range of the first of them. -/
def leads (b : UInt8) : Option (Nat × UInt8 × UInt8) :=
  if 0xc2 ≤ b ∧ b ≤ 0xdf then some (1, 0x80, 0xbf)
  else if b = 0xe0 then some (2, 0xa0, 0xbf)
  else if b = 0xed then some (2, 0x80, 0x9f)
  else if 0xe1 ≤ b ∧ b ≤ 0xef then some (2, 0x80, 0xbf)
  else if b = 0xf0 then some (3, 0x90, 0xbf)
  else if 0xf1 ≤ b ∧ b ≤ 0xf3 then some (3, 0x80, 0xbf)
  else if b = 0xf4 then some (3, 0x80, 0x8f)
  else none

/-- The bytes behind a first byte that belong to its character, as far as they do. -/
def continuation (count : Nat) (lo hi : UInt8) (rest : List UInt8) : List UInt8 :=
  match rest with
  | c :: rest =>
      if lo ≤ c ∧ c ≤ hi then
        c :: (rest.take (count - 1)).takeWhile fun d => 0x80 ≤ d && d ≤ 0xbf
      else []
  | [] => []

/-- The character of a first byte and the bytes behind it. -/
def assemble (b : UInt8) (more : List UInt8) : Char :=
  Char.ofNat (more.foldl (fun n d => 64 * n + d.toNat % 64) (b.toNat % 2 ^ (6 - more.length)))

/-- Read one character after the other, and U+FFFD for the bytes that are none. -/
def repair : Nat → List UInt8 → List Char
  | fuel + 1, b :: rest =>
      if b < 0x80 then Char.ofNat b.toNat :: repair fuel rest
      else
        match leads b with
        | none => '\ufffd' :: repair fuel rest
        | some (count, lo, hi) =>
            let more := continuation count lo hi rest
            (if more.length = count then assemble b more else '\ufffd') ::
              repair fuel (rest.drop more.length)
  | _, _ => []

/-- The text of bytes; what is not UTF-8 is replaced by U+FFFD. -/
def fromUtf8Lossy (bytes : List UInt8) : String :=
  match String.fromUTF8? ⟨bytes.toArray⟩ with
  | some s => s
  | none => String.ofList (repair bytes.length bytes)

example : repair 9 [0x41, 0xc3, 0xa9, 0xe2, 0x82, 0xac, 0xe2, 0x82, 0xff] =
    ['A', 'é', '€', '\ufffd', '\ufffd'] := by decide

/-- Text is kept: only bytes that are no UTF-8 are replaced. -/
theorem fromUtf8Lossy_utf8 (s : String) : fromUtf8Lossy s.toUTF8.data.toList = s := by
  have hbytes : (⟨s.toUTF8.data.toList.toArray⟩ : ByteArray) = s.toByteArray := by simp
  rw [fromUtf8Lossy, hbytes, String.fromUTF8?, dif_pos s.isValidUTF8]
  rfl

end PercentText
