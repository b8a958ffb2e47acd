/-
Character classes. The blanks are the characters of the bidirectional
types WS, B and S together with the space separators; the decimal digits
are the characters of general category Nd, given by the zero of each run
of ten. Both classes hold the ASCII ones.
-/

namespace Verdict.Text

-- ====================================================== blanks

/-- The blanks, as inclusive ranges of code points. -/
def blankRanges : List (Nat × Nat) :=
  [(0x9, 0xd), (0x1c, 0x20), (0x85, 0x85), (0xa0, 0xa0), (0x1680, 0x1680),
   (0x2000, 0x200a), (0x2028, 0x2029), (0x202f, 0x202f), (0x205f, 0x205f),
   (0x3000, 0x3000)]

/-- Whether a code point lies in one of the ranges. -/
def inRanges (ranges : List (Nat × Nat)) (n : Nat) : Bool :=
  ranges.any fun r => r.1 ≤ n && n ≤ r.2

/-- Whether a character is a blank. -/
def isBlank (c : Char) : Bool := inRanges blankRanges c.toNat

/-- The text without the blanks it begins with. -/
def dropBlanks (cs : List Char) : List Char := cs.dropWhile isBlank

/-- The text without the blanks at either end. -/
def trimBlanks (cs : List Char) : List Char :=
  (dropBlanks (dropBlanks cs).reverse).reverse

-- ====================================================== digits

/-- The zeros of the runs of decimal digits. -/
def decimalZeros : List Nat := [
  0x30, 0x660, 0x6f0, 0x7c0, 0x966, 0x9e6, 0xa66, 0xae6, 0xb66, 0xbe6,
   0xc66, 0xce6, 0xd66, 0xde6, 0xe50, 0xed0, 0xf20, 0x1040, 0x1090,
   0x17e0, 0x1810, 0x1946, 0x19d0, 0x1a80, 0x1a90, 0x1b50, 0x1bb0,
   0x1c40, 0x1c50, 0xa620, 0xa8d0, 0xa900, 0xa9d0, 0xa9f0, 0xaa50,
   0xabf0, 0xff10, 0x104a0, 0x10d30, 0x11066, 0x110f0, 0x11136, 0x111d0,
   0x112f0, 0x11450, 0x114d0, 0x11650, 0x116c0, 0x11730, 0x118e0,
   0x11950, 0x11c50, 0x11d50, 0x11da0, 0x16a60, 0x16ac0, 0x16b50,
   0x1d7ce, 0x1d7d8, 0x1d7e2, 0x1d7ec, 0x1d7f6, 0x1e140, 0x1e2f0,
   0x1e950, 0x1fbf0]

/-- The worth of a decimal digit of any script. -/
def decimalDigit? (c : Char) : Option Nat :=
  (decimalZeros.find? fun z => z ≤ c.toNat && c.toNat < z + 10).map
    fun z => c.toNat - z

/-- The worth of an ASCII digit or letter as a digit of the largest base,
thirty-six. -/
def asciiDigit? (c : Char) : Option Nat :=
  if '0' ≤ c ∧ c ≤ '9' then some (c.toNat - '0'.toNat)
  else if 'a' ≤ c ∧ c ≤ 'z' then some (c.toNat - 'a'.toNat + 10)
  else if 'A' ≤ c ∧ c ≤ 'Z' then some (c.toNat - 'A'.toNat + 10)
  else none

/-- The worth of a digit below the given base. -/
def digitBelow? (base : Nat) (c : Char) : Option Nat :=
  (asciiDigit? c).filter (· < base)

/-- Whether a character is one of the ten ASCII digits. -/
def isAsciiDigit (c : Char) : Bool := '0' ≤ c && c ≤ '9'

-- ============================================== numbers in a base

/-- The number whose digits, most significant first, have these worths. -/
def ofDigits (base : Nat) (digits : List Nat) : Nat :=
  digits.foldl (fun n d => n * base + d) 0

/-- The number whose decimal digits these characters are; characters that
are no digits count as zero. -/
def decimalValue (cs : List Char) : Nat :=
  ofDigits 10 (cs.map fun c => (digitBelow? 10 c).getD 0)

/-- A number in the given base, padded with zeros to a least width. -/
def padded (base width n : Nat) : List Char :=
  let digits := Nat.toDigits base n
  List.replicate (width - digits.length) '0' ++ digits

end Verdict.Text
