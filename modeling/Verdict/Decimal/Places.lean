/-
Decimals of a given length. A binary64 number is rounded once, to so many
places after the point or to so many digits, a half going to the even
neighbour, and is written by position or with an exponent.
-/
import Verdict.Decimal.Shortest

namespace Verdict.Decimal

/-- How a number is written: with a number of places by position, with a
number of places before an exponent, or with a number of digits in
whichever of the two ways is the plainer. -/
inductive Form where
  | fixed
  | exponential
  | general
  deriving Repr, DecidableEq

/-- The least number of digits of a written exponent. -/
def exponentDigits : Nat := 2

/-- The multiple of `10 ^ unit` nearest to a fraction, in these units. -/
def nearest (x : Ratio) (unit : Int) : Nat :=
  let u := Ratio.power 1 10 unit
  Binary64.roundQuotient (x.num * u.den) (x.den * u.num)

/-- The decimal of so many digits nearest to a fraction. -/
def ofDigits (x : Ratio) (count : Nat) : Numeral :=
  if x.num = 0 then ⟨0, 1 - count⟩
  else
    let unit := firstPlace x + 1 - count
    let n := nearest x unit
    if n = Nat.pow 10 count then ⟨n / 10, unit + 1⟩ else ⟨n, unit⟩

/-- The digits without the zeros at their end. -/
def withoutZeros (digits : List Char) : List Char :=
  (digits.reverse.dropWhile (· = '0')).reverse

/-- The places after a point; where there are none, the point may be kept. -/
def afterPoint (keepPoint : Bool) (places : List Char) : List Char :=
  if places.isEmpty ∧ !keepPoint then [] else '.' :: places

/-- A fraction with so many places by position. -/
def fixed (keepPoint : Bool) (places : Nat) (x : Ratio) : List Char :=
  let digits := Text.padded 10 (places + 1) (nearest x (-places))
  let whole := digits.length - places
  digits.take whole ++ afterPoint keepPoint (digits.drop whole)

/-- A fraction with so many places before an exponent. -/
def exponential (keepPoint : Bool) (places : Nat) (x : Ratio) : List Char :=
  let d := ofDigits x (places + 1)
  let digits := Text.padded 10 (places + 1) d.digits
  digits.take 1 ++ afterPoint keepPoint (digits.drop 1)
    ++ exponentText exponentDigits (d.exponent + places)

/-- A fraction with so many digits: by position from `1e-4` up to where the
digits end before the point, and otherwise with an exponent. Zeros at the
end of the places are left out unless the point is kept. -/
def general (keepPoint : Bool) (count : Nat) (x : Ratio) : List Char :=
  let d := ofDigits x count
  let digits := Text.padded 10 count d.digits
  let first : Int := d.exponent + count - 1
  let short (places : List Char) :=
    afterPoint keepPoint (if keepPoint then places else withoutZeros places)
  if first < -4 ∨ count ≤ first then
    digits.take 1 ++ short (digits.drop 1) ++ exponentText exponentDigits first
  else if first < 0 then
    '0' :: short (List.replicate (-first - 1).toNat '0' ++ digits)
  else digits.take (first.toNat + 1) ++ short (digits.drop (first.toNat + 1))

/-- A fraction in a form. -/
def Form.write (form : Form) (keepPoint : Bool) (places : Nat) (x : Ratio) : List Char :=
  match form with
  | fixed => Decimal.fixed keepPoint places x
  | exponential => Decimal.exponential keepPoint places x
  | general => Decimal.general keepPoint (max places 1) x

/-- A binary64 number in a form, and whether it has a minus sign. -/
def writePlaces (form : Form) (keepPoint : Bool) (places : Nat) :
    Binary64 → Bool × List Char
  | .nan => (false, shown.notANumber.toList)
  | .infinite negative => (negative, shown.infinity.toList)
  | .finite negative mantissa exponent =>
      (negative, form.write keepPoint places (.power mantissa 2 exponent))

end Verdict.Decimal
