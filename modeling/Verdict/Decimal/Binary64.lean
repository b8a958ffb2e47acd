/-
The numbers of the binary64 format: not-a-number, the two infinities, and
the grid of signed multiples of powers of two with 53 digits of
precision. Sums, products and readings of decimals are the exact result
rounded once onto the grid, a half going to the even neighbour.
-/

namespace Verdict

/-- A binary64 number. A finite one is a sign and `mantissa · 2 ^ exponent`
with the mantissa below `2 ^ 53` and the exponent at least `-1074`; the
mantissa is at least `2 ^ 52` unless the exponent is `-1074`. Zero has
both signs. -/
inductive Binary64 where
  | nan
  | infinite (negative : Bool)
  | finite (negative : Bool) (mantissa : Nat) (exponent : Int)
  deriving Repr, DecidableEq, Inhabited

namespace Binary64

/-- The least exponent of the grid. -/
def leastExponent : Int := -1074

/-- The greatest exponent of the grid. -/
def greatestExponent : Int := 971

/-- Zero of either sign. -/
def zero (negative : Bool) : Binary64 := .finite negative 0 leastExponent

/-- The least mantissa of full precision, `2 ^ 52`. -/
def fullMantissa : Nat := 1 <<< 52

/-- One. -/
def one : Binary64 := .finite false fullMantissa (-52)

-- ==================================================== rounding

/-- The quotient rounded to a whole number, a half going to the even
neighbour. -/
def roundQuotient (num den : Nat) : Nat :=
  let q := num / den
  let r := num % den
  if 2 * r < den then q
  else if den < 2 * r then q + 1
  else if q % 2 = 0 then q else q + 1

/-- `num / den` in units of `2 ^ e`, as a fraction. -/
def scaled (num den : Nat) (e : Int) : Nat × Nat :=
  if 0 ≤ e then (num, den <<< e.toNat) else (num <<< (-e).toNat, den)

/-- The exponent of the grid around the positive number `num / den`: the
one that gives it a mantissa of 53 digits, or the least. -/
def gridExponent (num den : Nat) : Int :=
  let e := (Nat.log2 num : Int) - Nat.log2 den - 52
  let (n, d) := scaled num den e
  max leastExponent (if n < d * fullMantissa then e - 1 else e)

/-- The grid number nearest to `num / den` with the given sign; beyond the
grid it is infinite. -/
def ofRatio (negative : Bool) (num den : Nat) : Binary64 :=
  if num = 0 then zero negative
  else
    let e := gridExponent num den
    let (n, d) := scaled num den e
    let m := roundQuotient n d
    let (m, e) := if m = 2 * fullMantissa then (fullMantissa, e + 1) else (m, e)
    if greatestExponent < e then .infinite negative else .finite negative m e

/-- The grid number nearest to `digits · 10 ^ exponent`. Exponents far
beyond the grid are settled by the count of digits alone. -/
def ofDecimal (negative : Bool) (digits : Nat) (exponent : Int) : Binary64 :=
  let places : Int := (Nat.toDigits 10 digits).length + exponent
  if digits = 0 ∨ places < -400 then zero negative
  else if 400 < places then .infinite negative
  else if 0 ≤ exponent then ofRatio negative (digits * Nat.pow 10 exponent.toNat) 1
  else ofRatio negative digits (Nat.pow 10 (-exponent).toNat)

/-- The grid number nearest to a whole number. -/
def ofInt (n : Int) : Binary64 := ofRatio (n < 0) n.natAbs 1

-- ================================================== arithmetic

/-- The same number with the other sign. -/
def negate : Binary64 → Binary64
  | nan => nan
  | infinite s => infinite !s
  | finite s m e => finite (!s) m e

/-- Whether the number is zero, of either sign. -/
def isZero : Binary64 → Bool
  | finite _ m _ => m = 0
  | _ => false

/-- A finite number as a signed multiple of `2 ^ e`, for `e` at most its
exponent. -/
def inUnits (negative : Bool) (mantissa : Nat) (exponent e : Int) : Int :=
  let n : Int := (mantissa <<< (exponent - e).toNat : Nat)
  if negative then -n else n

/-- The grid number nearest to `n · 2 ^ e`, whose sign when zero is given. -/
def ofScaled (negativeZero : Bool) (n : Int) (e : Int) : Binary64 :=
  if n = 0 then zero negativeZero
  else if 0 ≤ e then ofRatio (n < 0) (n.natAbs <<< e.toNat) 1
  else ofRatio (n < 0) n.natAbs (1 <<< (-e).toNat)

/-- The sum. -/
def add : Binary64 → Binary64 → Binary64
  | nan, _ => nan
  | _, nan => nan
  | infinite s, infinite t => if s = t then infinite s else nan
  | infinite s, _ => infinite s
  | _, infinite t => infinite t
  | finite s m e, finite t k f =>
      let u := min e f
      ofScaled (s && t) (inUnits s m e u + inUnits t k f u) u

/-- The product. -/
def mul : Binary64 → Binary64 → Binary64
  | nan, _ => nan
  | _, nan => nan
  | infinite s, infinite t => infinite (s != t)
  | infinite s, finite t m _ => if m = 0 then nan else infinite (s != t)
  | finite s m _, infinite t => if m = 0 then nan else infinite (s != t)
  | finite s m e, finite t k f =>
      let n : Int := if s != t then -((m * k : Nat) : Int) else ((m * k : Nat) : Int)
      ofScaled (s != t) n (e + f)

-- ================================================== comparison

/-- The whole number it is, if it is one. -/
def toInt? : Binary64 → Option Int
  | finite s m e =>
      let signed : Nat → Int := fun n => if s then -(n : Int) else n
      if 0 ≤ e then some (signed (m <<< e.toNat))
      else
        let d := 1 <<< (-e).toNat
        if m % d = 0 then some (signed (m / d)) else none
  | _ => none

/-- The whole number next to it towards zero, if it is finite. -/
def truncate? : Binary64 → Option Int
  | finite s m e =>
      let n := if 0 ≤ e then m <<< e.toNat else m >>> (-e).toNat
      some (if s then -(n : Int) else n)
  | _ => none

/-- Whether two numbers are of equal worth: the zeros are, and
not-a-number is not even of its own. -/
def same : Binary64 → Binary64 → Bool
  | nan, _ => false
  | _, nan => false
  | x, y => (x.isZero && y.isZero) || x = y

/-- Whether the number has the worth of a whole number. -/
def sameInt (x : Binary64) (n : Int) : Bool := x.toInt? = some n

end Binary64

end Verdict
