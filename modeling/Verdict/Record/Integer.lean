/-
Lenient whole numbers: the values that are taken for one where a record
asks for it. Beside the whole numbers themselves these are the truth
values, the binary64 numbers without a fraction, and the texts of whole
numbers.
-/
import Verdict.Field.Detail
import Verdict.Text.Lines

namespace Verdict.Record

/-- The greatest number of characters of a number: its digits and a minus
sign. -/
def longestNumber : Nat := 4300

/-- Whether a character may stand around the text of a number. -/
def isMargin (c : Char) : Bool :=
  Text.isBlank c && !(0x1c ≤ c.toNat && c.toNat ≤ 0x1f)

/-- The text without the margins at either end. -/
def trimMargins (cs : List Char) : List Char :=
  ((cs.dropWhile isMargin).reverse.dropWhile isMargin).reverse

-- ============================================== what counts for nothing

/-- Whether a character begins the part of a number that counts: a digit
but zero, or a minus sign. -/
def isLeading (c : Char) : Bool := c = '-' || ('1' ≤ c && c ≤ '9')

/-- What counts after zeros and underscores, of which the last is given. -/
def afterZeros? (last : Char) : List Char → Option (List Char)
  | [] => some [last]
  | c :: rest =>
      if c = '0' ∨ c = '_' then afterZeros? c rest
      else if isLeading c then some (c :: rest)
      else if c = '.' then some (last :: c :: rest)
      else none

/-- The text without the zeros it begins with. Underscores between them and
what follows go too; so does a plus sign before them all, which no other
sign follows. -/
def withoutZeros? (cs : List Char) : Option (List Char) :=
  match cs with
  | '+' :: '-' :: _ => none
  | '+' :: '0' :: rest => afterZeros? '0' rest
  | '0' :: rest => afterZeros? '0' rest
  | '+' :: c :: rest => if isLeading c then some (c :: rest) else none
  | c :: rest => if isLeading c then some (c :: rest) else none
  | [] => none

/-- The text before a fraction of nothing but zeros. -/
def withoutFraction (cs : List Char) : List Char :=
  let whole := cs.takeWhile (· ≠ '.')
  let fraction := cs.drop (whole.length + 1)
  if !fraction.isEmpty ∧ fraction.all (· = '0') then whole else cs

/-- The text without the underscores inside it, if each stands alone. -/
def withoutGaps (cs : List Char) : List Char :=
  let groups := Text.pieces '_' cs
  if groups.all fun g => !g.isEmpty then groups.flatten else cs

-- ============================================================== numbers

/-- The whole number that digits after an optional minus sign are. No zero
stands before other digits. -/
def integerOfDigits (cs : List Char) : Except Complaint Int :=
  let (negative, unsigned) := match cs with
    | '-' :: rest => (true, rest)
    | _ => (false, cs)
  let digits := match unsigned with
    | '0' :: _ => ['0']
    | _ => unsigned.takeWhile Text.isAsciiDigit
  let length := digits.length + (if negative then 1 else 0)
  if digits.isEmpty then .error .unreadableInteger
  else if longestNumber < length then .error .oversizedInteger
  else if digits.length < unsigned.length then .error .unreadableInteger
  else
    let n : Int := Text.decimalValue digits
    .ok (if negative then -n else n)

/-- The whole number that a text is. -/
def integerOfText (s : String) : Except Complaint Int :=
  match withoutZeros? (trimMargins s.toList) with
  | some cs => integerOfDigits (withoutGaps (withoutFraction cs))
  | none => .error .unreadableInteger

/-- The whole number that a binary64 number is, within the numbers of 64
bits. -/
def integerOfFloat (x : Binary64) : Except Complaint Int :=
  match x with
  | .nan => .error .notFinite
  | .infinite _ => .error .notFinite
  | x =>
      match x.toInt? with
      | none => .error .fractional
      | some n => if n.natAbs < 1 <<< 63 then .ok n else .error .oversizedInteger

/-- The whole number that a value is taken for. -/
def lenientInteger : Value → Except Complaint Int
  | .bool b => .ok (if b then 1 else 0)
  | .int n => .ok n
  | .float x => integerOfFloat x
  | .str s => integerOfText s
  | _ => .error .notInteger

end Verdict.Record
