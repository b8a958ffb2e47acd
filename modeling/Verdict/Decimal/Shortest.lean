/-
Shortest decimals. A binary64 number is written with the fewest decimal
digits that read back as the same number, and of those with the digits
nearest to it. The digits are found by testing, for one digit, two digits
and so on, the two points of that decimal grid next to the number against
the interval of reals that round to it.
-/
import Verdict.Decimal.Binary64
import Verdict.Text.Class

namespace Verdict.Decimal

-- ============================================ decimals and their text

/-- The decimal `digits · 10 ^ exponent`. -/
structure Numeral where
  digits : Nat
  exponent : Int
  deriving Repr, DecidableEq

/-- Drop the zeros at the end of the digits; `n` bounds their number. -/
def dropZeros : Nat → Nat → Int → Numeral
  | 0, digits, e => ⟨digits, e⟩
  | n + 1, digits, e =>
      if digits % 10 = 0 ∧ digits ≠ 0 then dropZeros n (digits / 10) (e + 1)
      else ⟨digits, e⟩

/-- How numbers are written: which decimal exponents of the first digit
are written by position, and the texts of what has no digits. -/
structure Style where
  /-- The least exponent written by position. -/
  positionalFrom : Int
  /-- The first exponent above those written by position. -/
  positionalBelow : Int
  /-- The least number of digits of a written exponent. -/
  exponentWidth : Nat
  notANumber : String
  infinity : String

/-- Values are shown by position from `1e-4` up to `1e16`, with one place
after the point at least, and otherwise with an exponent that has a sign
and two digits at least. -/
def shown : Style := ⟨-4, 16, 2, "nan", "inf"⟩

/-- In JSON text the same holds, with the names of that format for what
has no digits. -/
def json : Style := ⟨-4, 16, 2, "NaN", "Infinity"⟩

/-- The digits by position: `point` of them stand before the point. -/
def positional (digits : List Char) (point : Int) : List Char :=
  if point ≤ 0 then
    '0' :: '.' :: List.replicate (-point).toNat '0' ++ digits
  else
    let n := point.toNat
    let whole := digits.take n ++ List.replicate (n - digits.length) '0'
    let places := digits.drop n
    whole ++ '.' :: (if places.isEmpty then ['0'] else places)

/-- The text of an exponent: its sign, and digits padded to a least
number. -/
def exponentText (width : Nat) (exponent : Int) : List Char :=
  'e' :: (if exponent < 0 then '-' else '+') :: Text.padded 10 width exponent.natAbs

/-- The digits with an exponent after them. -/
def scientific (style : Style) (digits : List Char) (exponent : Int) : List Char :=
  let tail := digits.drop 1
  digits.take 1 ++ (if tail.isEmpty then [] else '.' :: tail)
    ++ exponentText style.exponentWidth exponent

/-- The text of a decimal. -/
def Numeral.write (style : Style) (d : Numeral) : List Char :=
  let digits := Nat.toDigits 10 d.digits
  let first : Int := d.exponent + digits.length - 1
  if style.positionalFrom ≤ first ∧ first < style.positionalBelow then
    positional digits (first + 1)
  else scientific style digits first

-- ======================================================== the search

/-- A fraction of natural numbers. -/
structure Ratio where
  num : Nat
  den : Nat
  deriving Repr

/-- Whether one fraction is at most, or below, another. -/
def Ratio.atMost (a b : Ratio) : Bool := a.num * b.den ≤ b.num * a.den

def Ratio.below (a b : Ratio) : Bool := a.num * b.den < b.num * a.den

/-- `n · b ^ e` as a fraction. -/
def Ratio.power (n b : Nat) (e : Int) : Ratio :=
  if 0 ≤ e then ⟨n * Nat.pow b e.toNat, 1⟩ else ⟨n, Nat.pow b (-e).toNat⟩

/-- The ends of the interval of reals that round to `mantissa · 2 ^ exponent`:
half a step on either side, and a quarter below where the grid becomes
finer. -/
def roundingEnds (mantissa : Nat) (exponent : Int) : Ratio × Ratio :=
  let finer := mantissa = Binary64.fullMantissa ∧ exponent > Binary64.leastExponent
  let below := if finer then 4 * mantissa - 1 else 4 * mantissa - 2
  (.power below 2 (exponent - 2), .power (4 * mantissa + 2) 2 (exponent - 2))

/-- Whether a decimal reads back as the number: it lies between the ends,
which count when the mantissa is even. -/
def readsBack (mantissa : Nat) (ends : Ratio × Ratio) (d : Numeral) : Bool :=
  let x := Ratio.power d.digits 10 d.exponent
  if mantissa % 2 = 0 then ends.1.atMost x && x.atMost ends.2
  else ends.1.below x && x.below ends.2

/-- The exponent of the first decimal digit of a positive fraction that is
at least `10 ^ -400`. -/
def firstPlace (x : Ratio) : Int :=
  (Nat.toDigits 10 (x.num * Nat.pow 10 400 / x.den)).length - 401

/-- The better of the two neighbours of a number on the grid of multiples
of `10 ^ unit`, if one reads back: the nearer, and of two as near the even
one. -/
def onGrid (mantissa : Nat) (ends : Ratio × Ratio) (x : Ratio) (unit : Int) :
    Option Numeral :=
  let u := Ratio.power 1 10 unit
  let num := x.num * u.den
  let den := x.den * u.num
  let low := num / den
  let twice := 2 * (num % den)
  let a : Numeral := ⟨low, unit⟩
  let b : Numeral := ⟨low + 1, unit⟩
  let lowFits := readsBack mantissa ends a
  let highFits := readsBack mantissa ends b
  if lowFits && highFits then
    some (if twice < den then a else if den < twice then b
      else if low % 2 = 0 then a else b)
  else if lowFits then some a
  else if highFits then some b
  else none

/-- Search the grids of `count` digits and more, `tries` of them. -/
def search (mantissa : Nat) (ends : Ratio × Ratio) (x : Ratio) (first : Int) :
    Nat → Nat → Numeral
  | 0, count => ⟨x.num * Nat.pow 10 (count - 1 - first).toNat / x.den, first + 1 - count⟩
  | tries + 1, count =>
      match onGrid mantissa ends x (first + 1 - count) with
      | some d => d
      | none => search mantissa ends x first tries (count + 1)

/-- The shortest decimal of the positive number `mantissa · 2 ^ exponent`.
Seventeen digits always read back. -/
def shortest (mantissa : Nat) (exponent : Int) : Numeral :=
  let x := Ratio.power mantissa 2 exponent
  let d := search mantissa (roundingEnds mantissa exponent) x (firstPlace x) 17 1
  dropZeros 20 d.digits d.exponent

-- ========================================================== writing

/-- The text of a binary64 number. -/
def write (style : Style) : Binary64 → String
  | .nan => style.notANumber
  | .infinite negative => (if negative then "-" else "") ++ style.infinity
  | .finite negative mantissa exponent =>
      let digits :=
        if mantissa = 0 then ['0', '.', '0']
        else (shortest mantissa exponent).write style
      String.ofList (if negative then '-' :: digits else digits)

end Verdict.Decimal
