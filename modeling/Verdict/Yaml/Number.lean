/-
Numbers as YAML writes them: whole numbers to the bases two, eight, ten
and sixteen, binary64 numbers, and both as parts to the base sixty.
Underscores between digits count for nothing.
-/
import Verdict.Decimal.Binary64
import Verdict.Text.Class
import Verdict.Text.Lines
import Verdict.Yaml.Failure

namespace Verdict.Yaml.Number

-- ========================================================= conversions

/-- The greatest number of decimal digits of a whole number. -/
def greatestDigitCount : Nat := 4300

/-- The text after a sign, and whether the sign is a minus. -/
def signed : List Char → Bool × List Char
  | '-' :: rest => (true, rest)
  | '+' :: rest => (false, rest)
  | cs => (false, cs)

/-- The text after the zero and letter that announce a base. -/
def afterBase (base : Nat) (cs : List Char) : List Char :=
  let letters := match base with
    | 2 => ['b', 'B']
    | 8 => ['o', 'O']
    | 16 => ['x', 'X']
    | _ => []
  match cs with
  | '0' :: letter :: rest => if letters.contains letter then rest else cs
  | _ => cs

/-- The worth of a digit of any script below the given base. -/
def digitOf? (base : Nat) (c : Char) : Option Nat :=
  match Text.decimalDigit? c with
  | some d => if d < base then some d else none
  | none => Text.digitBelow? base c

/-- The whole number that a text is, between blanks, to the given base. -/
def ofText (base : Nat) (cs : List Char) : Except Failure Int :=
  let (negative, cs) := signed (Text.trimBlanks cs)
  let cs := afterBase base cs
  if cs.isEmpty ∨ (base = 10 ∧ greatestDigitCount < cs.length) then .error .badValue
  else
    match cs.mapM (digitOf? base) with
    | none => .error .badValue
    | some digits =>
        let n := Text.ofDigits base digits
        .ok (if negative then -(n : Int) else n)

/-- The digits at the beginning of a text, of any script, by their worth,
and what follows them. -/
def digitsOf : List Char → List Nat × List Char
  | [] => ([], [])
  | c :: rest =>
      match Text.decimalDigit? c with
      | some d => let (ds, rest) := digitsOf rest; (d :: ds, rest)
      | none => ([], c :: rest)

/-- The exponent that a text is, empty for none. -/
def exponentOf? : List Char → Option Int
  | [] => some 0
  | letter :: rest =>
      if letter ≠ 'e' ∧ letter ≠ 'E' then none
      else
        let (negative, rest) := signed rest
        match digitsOf rest with
        | (d :: ds, []) =>
            let n := Text.ofDigits 10 (d :: ds)
            some (if negative then -(n : Int) else n)
        | _ => none

/-- The binary64 number that a text in lower case is, between blanks. -/
def floatOfText (cs : List Char) : Except Failure Binary64 :=
  let (negative, cs) := signed (Text.trimBlanks cs)
  if cs = "inf".toList ∨ cs = "infinity".toList then .ok (.infinite negative)
  else if cs = "nan".toList then .ok .nan
  else
    let (whole, cs) := digitsOf cs
    let (part, cs) := match cs with
      | '.' :: rest => digitsOf rest
      | _ => ([], cs)
    match exponentOf? cs with
    | some exponent =>
        let digits := whole ++ part
        if digits.isEmpty then .error .badValue
        else
          .ok (.ofDecimal negative (Text.ofDigits 10 digits) (exponent - part.length))
    | none => .error .badValue

-- ============================================================= values

/-- The text without underscores. -/
def withoutGaps (cs : List Char) : List Char := cs.filter (· ≠ '_')

/-- Whether a text is the name of not-a-number. -/
def namesNan (cs : List Char) : Bool :=
  (signed ((withoutGaps cs).map Char.toLower)).2 = ".nan".toList

/-- Whether a text begins with another. -/
def beginsWith (start cs : List Char) : Bool := cs.take start.length = start

/-- The whole number whose parts to the base sixty these are, the greatest
first. -/
def ofParts (parts : List Int) : Int := parts.foldl (fun n part => n * 60 + part) 0

/-- The whole number of a scalar, without its sign. -/
def magnitude (cs : List Char) : Except Failure Int :=
  if cs = ['0'] then .ok 0
  else if beginsWith "0b".toList cs then ofText 2 (cs.drop 2)
  else if beginsWith "0x".toList cs then ofText 16 (cs.drop 2)
  else if cs.isEmpty then .error (.tag .noCharacter)
  else if cs.head? = some '0' then ofText 8 cs
  else if cs.contains ':' then do
    pure (ofParts (← (Text.pieces ':' cs).mapM (ofText 10)))
  else ofText 10 cs

/-- The whole number of a scalar. -/
def wholeNumber (cs : List Char) : Except Failure Int := do
  let cs := withoutGaps cs
  if cs.isEmpty then throw (.tag .noCharacter)
  let (negative, cs) := signed cs
  let n ← magnitude cs
  pure (if negative then -n else n)

/-- The sum of parts to the base sixty, the least first, each multiplied by
its base before it is added. -/
def sumParts (sum : Binary64) (base : Int) : List Binary64 → Except Failure Binary64
  | [] => .ok sum
  | part :: rest =>
      match Binary64.ofInt base with
      | .infinite _ => .error (.tag .beyondRange)
      | b => sumParts (sum.add (part.mul b)) (base * 60) rest

/-- The binary64 number of a scalar. -/
def float (cs : List Char) : Except Failure Binary64 := do
  let cs := (withoutGaps cs).map Char.toLower
  if cs.isEmpty then throw (.tag .noCharacter)
  let (negative, cs) := signed cs
  if cs = ".inf".toList then pure (.infinite negative)
  else if cs = ".nan".toList then pure .nan
  else do
    let x ←
      if cs.contains ':' then do
        let parts ← (Text.pieces ':' cs).mapM floatOfText
        sumParts (.zero false) 1 parts.reverse
      else floatOfText cs
    pure (if negative then x.negate else x)

end Verdict.Yaml.Number
