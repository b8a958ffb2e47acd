/-
Halves of pairs. Characters beyond the sixteen-bit range have escapes of
two code units, a surrogate pair. Half of a pair that stands alone is no
character; a text keeps it as one of the private characters from U+10D800
to U+10DFFF. These characters themselves are given up for it: a text that
holds one of them is taken to hold the half, and all other characters are
told apart from every half.
-/

namespace Verdict.Text

/-- Whether a code unit is half of a pair. -/
def isHalf (n : Nat) : Bool := 0xd800 ≤ n && n < 0xe000

/-- How far the characters kept for halves stand from them. -/
def halfShift : Nat := 0x100000

/-- The character of a code point, or the one kept for a half. -/
def ofCodePoint (n : Nat) : Char :=
  if isHalf n then Char.ofNat (halfShift + n) else Char.ofNat n

/-- The code point of a character; that of one kept for a half is the code unit of
the half. -/
def codePoint (c : Char) : Nat :=
  if halfShift ≤ c.toNat ∧ isHalf (c.toNat - halfShift) then c.toNat - halfShift
  else c.toNat

/-- The code points of a text. -/
def codePoints (s : String) : List Nat := s.toList.map codePoint

end Verdict.Text
