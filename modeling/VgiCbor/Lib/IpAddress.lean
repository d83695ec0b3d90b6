import Mathlib

/-!
# IP addresses

Addresses as octets and segments, their address classes as blocks of the number
line, and the textual forms: an address literal is parsed by one left-to-right pass
that tries the dotted form first (`parseIp`).  Dotted text reads back as the address it
was written for; nothing that starts with a bracket is an address.
-/

namespace IpAddress

/-- An IPv4 address, most significant octet first. -/
structure Ipv4Addr where
  a : UInt8
  b : UInt8
  c : UInt8
  d : UInt8
  deriving DecidableEq

/-- An IPv6 address, most significant segment first. -/
structure Ipv6Addr where
  s0 : UInt16
  s1 : UInt16
  s2 : UInt16
  s3 : UInt16
  s4 : UInt16
  s5 : UInt16
  s6 : UInt16
  s7 : UInt16
  deriving DecidableEq

inductive IpAddr where
  | v4 (addr : Ipv4Addr)
  | v6 (addr : Ipv6Addr)
  deriving DecidableEq

/-! ## Address numbers and blocks -/

/-- The 32-bit number of an address. -/
def Ipv4Addr.toNat (addr : Ipv4Addr) : Nat :=
  ((addr.a.toNat * 256 + addr.b.toNat) * 256 + addr.c.toNat) * 256 + addr.d.toNat

/-- The 128-bit number of an address. -/
def Ipv6Addr.toNat (addr : Ipv6Addr) : Nat :=
  [addr.s1, addr.s2, addr.s3, addr.s4, addr.s5, addr.s6, addr.s7].foldl
    (fun n s => n * 65536 + s.toNat) addr.s0.toNat

/-- The numbers that agree with `base` above the low `free` bits: an address block in its
usual notation. -/
structure Block where
  base : Nat
  free : Nat

/-- The block contains the number. -/
def Block.Contains (block : Block) (n : Nat) : Prop := n / 2 ^ block.free = block.base / 2 ^ block.free

instance (block : Block) (n : Nat) : Decidable (block.Contains n) :=
  inferInstanceAs (Decidable (_ = _))

/-- Keeping the bits above the low `k` of an `n`-bit number rounds it down, so tests by masks
are tests of ranges. -/
theorem and_high_bits {x n k : Nat} (hk : k ≤ n) (hx : x < 2 ^ n) :
    x &&& (2 ^ n - 2 ^ k) = x / 2 ^ k * 2 ^ k := by
  have hmask : 2 ^ n - 2 ^ k = (2 ^ (n - k) - 1) <<< k := by
    rw [Nat.shiftLeft_eq, Nat.sub_mul, Nat.one_mul, ← Nat.pow_add, Nat.sub_add_cancel hk]
  rw [hmask, ← Nat.shiftRight_eq_div_pow, ← Nat.shiftLeft_eq]
  apply Nat.eq_of_testBit_eq
  intro i
  simp only [Nat.testBit_and, Nat.testBit_shiftLeft, Nat.testBit_shiftRight,
    Nat.testBit_two_pow_sub_one]
  by_cases hi : k ≤ i
  · by_cases hn : i < n
    · simp [hi, show i - k < n - k by omega]
    · have hzero : x.testBit i = false := Nat.testBit_lt_two_pow
        (Nat.lt_of_lt_of_le hx (Nat.pow_le_pow_right (by decide) (by omega)))
      simp [hi, hzero]
  · simp [hi]

/-! ## The standard address classes -/

namespace Ipv4Addr

/-- `127.0.0.0/8` -/
def isLoopback (addr : Ipv4Addr) : Bool := addr.a == 127

/-- `10.0.0.0/8`, `172.16.0.0/12` and `192.168.0.0/16` -/
def isPrivate (addr : Ipv4Addr) : Bool :=
  addr.a == 10 || (addr.a == 172 && decide (16 ≤ addr.b ∧ addr.b ≤ 31)) ||
    (addr.a == 192 && addr.b == 168)

/-- `169.254.0.0/16` -/
def isLinkLocal (addr : Ipv4Addr) : Bool := addr.a == 169 && addr.b == 254

def isUnspecified (addr : Ipv4Addr) : Bool := addr == ⟨0, 0, 0, 0⟩

def isBroadcast (addr : Ipv4Addr) : Bool := addr == ⟨255, 255, 255, 255⟩

end Ipv4Addr

namespace Ipv6Addr

def isLoopback (addr : Ipv6Addr) : Bool := addr == ⟨0, 0, 0, 0, 0, 0, 0, 1⟩

def isUnspecified (addr : Ipv6Addr) : Bool := addr == ⟨0, 0, 0, 0, 0, 0, 0, 0⟩

/-- The IPv4 address of an IPv4-mapped address, `::ffff:0:0/96`. -/
def toIpv4Mapped (addr : Ipv6Addr) : Option Ipv4Addr :=
  if addr.s0 = 0 ∧ addr.s1 = 0 ∧ addr.s2 = 0 ∧ addr.s3 = 0 ∧ addr.s4 = 0 ∧ addr.s5 = 0xffff then
    some ⟨.ofNat (addr.s6.toNat / 256), .ofNat (addr.s6.toNat % 256),
      .ofNat (addr.s7.toNat / 256), .ofNat (addr.s7.toNat % 256)⟩
  else none

end Ipv6Addr

/-! ## Text -/

/-- The value of a character as a digit in the given radix. -/
def toDigit (radix : Nat) (c : Char) : Option Nat :=
  let value :=
    if '0' ≤ c ∧ c ≤ '9' then some (c.toNat - 48)
    else if 'a' ≤ c ∧ c ≤ 'z' then some (c.toNat - 87)
    else if 'A' ≤ c ∧ c ≤ 'Z' then some (c.toNat - 55)
    else none
  value.filter (· < radix)

/-- Read a number of at most `maxDigits` digits that is below `bound`. -/
def readNumber (radix maxDigits bound : Nat) (zeroPrefix : Bool) (s : List Char) :
    Option (Nat × List Char) :=
  let digits := s.takeWhile fun c => (toDigit radix c).isSome
  let value := digits.foldl (fun n c => n * radix + (toDigit radix c).getD 0) 0
  if digits.length = 0 ∨ maxDigits < digits.length then none
  else if !zeroPrefix && digits.head? == some '0' && 1 < digits.length then none
  else if value < bound then some (value, s.drop digits.length)
  else none

def readChar (c : Char) : List Char → Option (List Char)
  | [] => none
  | d :: s => if d = c then some s else none

def readIpv4 (s : List Char) : Option (Ipv4Addr × List Char) := do
  let (a, s) ← readNumber 10 3 256 false s
  let s ← readChar '.' s
  let (b, s) ← readNumber 10 3 256 false s
  let s ← readChar '.' s
  let (c, s) ← readNumber 10 3 256 false s
  let s ← readChar '.' s
  let (d, s) ← readNumber 10 3 256 false s
  some (⟨.ofNat a, .ofNat b, .ofNat c, .ofNat d⟩, s)

/-- Up to `limit` hexadecimal groups separated by colons, the last two of which may be
a dotted address: the groups, and whether they end in one. -/
def readGroups : Nat → Bool → List Char → List Nat × Bool × List Char
  | 0, _, s => ([], false, s)
  | left + 1, first, s =>
      let group := if first then some s else readChar ':' s
      match if left = 0 then none else group.bind readIpv4 with
      | some (v4, rest) =>
          ([v4.a.toNat * 256 + v4.b.toNat, v4.c.toNat * 256 + v4.d.toNat], true, rest)
      | none =>
          match group.bind (readNumber 16 4 65536 true) with
          | some (g, rest) =>
              let (gs, endsInV4, rest) := readGroups left false rest
              (g :: gs, endsInV4, rest)
          | none => ([], false, s)

/-- The address of eight groups. -/
def ofGroups (groups : List Nat) : Ipv6Addr :=
  let segment (i : Nat) : UInt16 := .ofNat (groups.getD i 0)
  ⟨segment 0, segment 1, segment 2, segment 3, segment 4, segment 5, segment 6, segment 7⟩

/-- Eight groups, or fewer around one `::` that stands for the missing zeros.  The last two
groups may be in dotted form. -/
def readIpv6 (s : List Char) : Option (Ipv6Addr × List Char) :=
  let (front, endsInV4, s) := readGroups 8 true s
  if front.length = 8 then some (ofGroups front, s)
  else if endsInV4 then none
  else
    (readChar ':' s).bind fun s => (readChar ':' s).bind fun s =>
      let (back, _, s) := readGroups (8 - (front.length + 1)) true s
      let zeros := List.replicate (8 - front.length - back.length) 0
      some (ofGroups (front ++ zeros ++ back), s)

/-- Parse an address literal, of either kind, that takes up the whole text. -/
def parseIp (s : List Char) : Option IpAddr :=
  match readIpv4 s with
  | some (addr, rest) => if rest = [] then some (.v4 addr) else none
  | none =>
      match readIpv6 s with
      | some (addr, rest) => if rest = [] then some (.v6 addr) else none
      | none => none

def octetText (n : Nat) : List Char :=
  if n < 10 then [n.digitChar]
  else if n < 100 then [(n / 10).digitChar, (n % 10).digitChar]
  else [(n / 100).digitChar, (n / 10 % 10).digitChar, (n % 10).digitChar]

/-- The dotted form of an address. -/
def Ipv4Addr.text (addr : Ipv4Addr) : List Char :=
  octetText addr.a.toNat ++ '.' :: (octetText addr.b.toNat ++ '.' ::
    (octetText addr.c.toNat ++ '.' :: octetText addr.d.toNat))

/-! ## Reading back dotted text -/

/-- Facts about the digits of one octet. -/
theorem octetText_facts : ∀ n < 256,
    (octetText n).all (fun c => (toDigit 10 c).isSome) = true ∧
      (octetText n).length ≠ 0 ∧ (octetText n).length ≤ 3 ∧
      ((octetText n).head? = some '0' → (octetText n).length ≤ 1) ∧
      (octetText n).foldl (fun n c => n * 10 + (toDigit 10 c).getD 0) 0 = n := by
  decide +kernel

/-- An octet is read up to the first character that is no digit. -/
theorem readNumber_octetText (o : UInt8) (rest : List Char)
    (hrest : ∀ c ∈ rest.head?, toDigit 10 c = none) :
    readNumber 10 3 256 false (octetText o.toNat ++ rest) = some (o.toNat, rest) := by
  obtain ⟨hdigits, hne, hlen, hzero, hvalue⟩ := octetText_facts o.toNat o.toNat_lt
  have hstop : rest.takeWhile (fun c => (toDigit 10 c).isSome) = [] := by
    cases rest with
    | nil => rfl
    | cons c cs => simp [hrest c rfl]
  have htake : (octetText o.toNat ++ rest).takeWhile (fun c => (toDigit 10 c).isSome) =
      octetText o.toNat := by
    rw [List.takeWhile_append_of_pos (List.all_eq_true.1 hdigits), hstop, List.append_nil]
  have hleading : ((!false && (octetText o.toNat).head? == some '0') &&
      decide (1 < (octetText o.toNat).length)) = false := by
    by_cases hhead : (octetText o.toNat).head? = some '0'
    · simp [Nat.not_lt.2 (hzero hhead)]
    · simp [hhead]
  simp only [readNumber, htake, hvalue]
  rw [if_neg (by omega), hleading, if_neg (by simp), if_pos o.toNat_lt, List.drop_left]

/-- A dotted address reads back. -/
theorem parseIp_text (addr : Ipv4Addr) : parseIp addr.text = some (.v4 addr) := by
  have hdot (s : List Char) : ∀ c ∈ ('.' :: s).head?, toDigit 10 c = none := by
    intro c hc
    cases hc
    decide
  have hread : readIpv4 addr.text = some (addr, []) := by
    have hlast := readNumber_octetText addr.d [] (by simp)
    rw [List.append_nil] at hlast
    simp only [readIpv4, Ipv4Addr.text, readNumber_octetText _ _ (hdot _), readChar, hlast,
      Option.bind_eq_bind, Option.bind_some, if_true, UInt8.ofNat_toNat]
  rw [parseIp, hread]
  rfl

/-- Nothing that starts with a bracket is an address, so the host of a URL with an IPv6
literal is none. -/
theorem parseIp_bracketed (s : List Char) : parseIp ('[' :: s) = none := by
  rfl

example : parseIp "::ffff:10.0.0.1".toList = some (.v6 ⟨0, 0, 0, 0, 0, 0xffff, 0x0a00, 1⟩) := by
  decide
example : parseIp "fe80::1".toList = some (.v6 ⟨0xfe80, 0, 0, 0, 0, 0, 0, 1⟩) := by decide
example : parseIp "010.0.0.1".toList = none := by decide

end IpAddress
