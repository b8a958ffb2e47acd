/-
Reading JSON text. The reader goes through the characters once and keeps
what is left of them. A malformed text is refused at the first character
that cannot go on; the number of characters left there tells the place.
Beside the standard the three names of what has no digits are read, a
repeated name in an object keeps its first place and takes its last
value, and half of a surrogate pair may stand alone.
-/
import Verdict.Json.Failure
import Verdict.Text.Half
import Verdict.Value.Same

namespace Verdict.Json

/-- The greatest number of objects and arrays open at once. -/
def depthLimit : Nat := 990

/-- The greatest number of digits of a whole number. -/
def digitLimit : Nat := 4300

/-- Why reading stopped, with the number of characters left. -/
inductive Stop where
  | malformed (reason : Reason) (left : Nat)
  | longNumber
  | tooDeep
  deriving Repr, DecidableEq

/-- The blanks between tokens. -/
def isSpace (c : Char) : Bool := c = ' ' || c = '\t' || c = '\n' || c = '\r'

/-- The text without the blanks it begins with. -/
def skip (cs : List Char) : List Char := cs.dropWhile isSpace

/-- The refusal at the beginning of what is left. -/
def refuse (reason : Reason) (cs : List Char) : Except Stop α :=
  .error (.malformed reason cs.length)

-- ============================================================ strings

/-- The code unit that four hexadecimal digits give. -/
def codeUnit? (a b c d : Char) : Option Nat := do
  let digits ← [a, b, c, d].mapM (Text.digitBelow? 16)
  pure (Text.ofDigits 16 digits)

/-- The character that a pair of code units gives, if it is a surrogate
pair. -/
def pairChar? (high low : Nat) : Option Char :=
  if 0xd800 ≤ high ∧ high < 0xdc00 ∧ 0xdc00 ≤ low ∧ low < 0xe000 then
    some (Char.ofNat (0x10000 + (high - 0xd800) * 0x400 + (low - 0xdc00)))
  else none

/-- The character that a letter after a backslash stands for. -/
def escaped? (c : Char) : Option Char :=
  match c with
  | '"' => some '"'
  | '\\' => some '\\'
  | '/' => some '/'
  | 'b' => some '\x08'
  | 'f' => some '\x0c'
  | 'n' => some '\n'
  | 'r' => some '\r'
  | 't' => some '\t'
  | _ => none

/-- Read a code unit after `\u`, which has to be followed by something;
`unit` is what is left from the letter on. -/
def unitAfter (unit : List Char) : Except Stop Nat :=
  match unit with
  | _ :: a :: b :: c :: d :: _ :: _ =>
      match codeUnit? a b c d with
      | some n => .ok n
      | none => refuse .codeUnit unit
  | _ => refuse .codeUnit unit

/-- The second code unit of a pair, if an escape of one follows in a text
that goes on after it. -/
def secondUnit (cs : List Char) : Except Stop (Option Nat) :=
  match cs with
  | '\\' :: 'u' :: rest =>
      if (rest.drop 4).isEmpty then .ok none else (unitAfter ('u' :: rest)).map some
  | _ => .ok none

/-- Read an escape from the character after its backslash on: the
character it stands for and what is left. -/
def readEscape (opened cs : List Char) : Except Stop (Char × List Char) :=
  match cs with
  | [] => refuse .unterminated opened
  | 'u' :: rest => do
      let high ← unitAfter cs
      let after := rest.drop 4
      if 0xd800 ≤ high ∧ high < 0xdc00 then
        match ← secondUnit after with
        | some low =>
            match pairChar? high low with
            | some c => pure (c, after.drop 6)
            | none => pure (Text.ofCodePoint high, after)
        | none => pure (Text.ofCodePoint high, after)
      else pure (Text.ofCodePoint high, after)
  | c :: rest =>
      match escaped? c with
      | some e => .ok (e, rest)
      | none => .error (.malformed .escape (cs.length + 1))

/-- Read a string from the character after its opening quote on, with the
characters read so far, last first. `opened` is what was left at the
quote. Every step takes a character, so a text of what is left bounds
their number. -/
def readString (opened : List Char) : List Char → List Char → List Char →
    Except Stop (String × List Char)
  | [], _, _ => refuse .unterminated opened
  | _ :: steps, read, cs =>
      match cs with
      | [] => refuse .unterminated opened
      | '"' :: rest => .ok (String.ofList read.reverse, rest)
      | '\\' :: rest => do
          let (c, rest) ← readEscape opened rest
          readString opened steps (c :: read) rest
      | c :: rest =>
          if c.toNat < 0x20 then refuse .control cs
          else readString opened steps (c :: read) rest

/-- Read a string whose opening quote is the first of the characters. -/
def stringAt (cs : List Char) : Except Stop (String × List Char) :=
  readString cs cs [] (cs.drop 1)

-- ============================================================ numbers

/-- The digits that a text begins with, and what is left. -/
def spanDigits (cs : List Char) : List Char × List Char :=
  (cs.takeWhile Text.isAsciiDigit, cs.dropWhile Text.isAsciiDigit)

/-- The fraction that a text begins with: the digits after a point, of
which there is one at least. -/
def readFraction (cs : List Char) : List Char × List Char :=
  match cs with
  | '.' :: rest =>
      let (digits, after) := spanDigits rest
      if digits.isEmpty then ([], cs) else (digits, after)
  | _ => ([], cs)

/-- The exponent that a text begins with, if it has digits. -/
def readExponent (cs : List Char) : Option Int × List Char :=
  match cs with
  | c :: rest =>
      if c = 'e' ∨ c = 'E' then
        let (negative, unsigned) := match rest with
          | '-' :: r => (true, r)
          | '+' :: r => (false, r)
          | r => (false, r)
        let (digits, after) := spanDigits unsigned
        if digits.isEmpty then (none, cs)
        else
          let n : Int := Text.decimalValue digits
          (some (if negative then -n else n), after)
      else (none, cs)
  | [] => (none, cs)

/-- The digits of a whole part: a zero stands alone. -/
def readWhole (cs : List Char) : List Char × List Char :=
  match cs with
  | '0' :: rest => (['0'], rest)
  | _ => spanDigits cs

/-- Whether a text begins with a minus, and what is left after it. -/
def readSign (cs : List Char) : Bool × List Char :=
  match cs with
  | '-' :: rest => (true, rest)
  | _ => (false, cs)

/-- Read a number. One with a fraction or an exponent is a binary64
number, any other a whole number. -/
def readNumber (cs : List Char) : Except Stop (Value × List Char) :=
  let (negative, unsigned) := readSign cs
  let (whole, afterWhole) := readWhole unsigned
  if whole.isEmpty then refuse .value cs
  else
    let (fraction, afterFraction) := readFraction afterWhole
    let (exponent, rest) := readExponent afterFraction
    if fraction.isEmpty && exponent.isNone then
      if digitLimit < whole.length then .error .longNumber
      else
        let n : Int := Text.decimalValue whole
        .ok (.int (if negative then -n else n), rest)
    else
      let digits := Text.decimalValue (whole ++ fraction)
      .ok (.float (.ofDecimal negative digits (exponent.getD 0 - fraction.length)), rest)

-- ============================================================= values

/-- The values that are written as words. -/
def wordValues : List (List Char × Value) :=
  [("null".toList, .null), ("true".toList, .bool true), ("false".toList, .bool false),
   ("NaN".toList, .float .nan), ("Infinity".toList, .float (.infinite false)),
   ("-Infinity".toList, .float (.infinite true))]

/-- Read a word or, failing that, a number. -/
def readPlain (cs : List Char) : Except Stop (Value × List Char) :=
  match wordValues.find? fun w => w.1.isPrefixOf cs with
  | some (word, v) => .ok (v, cs.drop word.length)
  | none => readNumber cs

mutual

/-- Read a value with the given number of steps and of levels left. -/
def readValue : Nat → Nat → List Char → Except Stop (Value × List Char)
  | 0, _, _ => .error .tooDeep
  | steps + 1, depth, cs =>
      match cs with
      | '"' :: _ => do
          let (s, rest) ← stringAt cs
          pure (.str s, rest)
      | '[' :: rest =>
          match depth, skip rest with
          | 0, _ => .error .tooDeep
          | _ + 1, ']' :: after => .ok (.list [], after)
          | depth + 1, inside => readItems steps depth [] inside
      | '\x7b' :: rest =>
          match depth, skip rest with
          | 0, _ => .error .tooDeep
          | _ + 1, '\x7d' :: after => .ok (.map [], after)
          | depth + 1, inside => readMembers steps depth [] inside
      | _ => readPlain cs

/-- Read the items of an array, with those read so far, last first. -/
def readItems : Nat → Nat → List Value → List Char →
    Except Stop (Value × List Char)
  | 0, _, _, _ => .error .tooDeep
  | steps + 1, depth, read, cs => do
      let (v, rest) ← readValue steps depth cs
      match skip rest with
      | ']' :: after => pure (.list (v :: read).reverse, after)
      | ',' :: after => readItems steps depth (v :: read) (skip after)
      | left => refuse .comma left

/-- Read the members of an object, with those read so far, in order. -/
def readMembers : Nat → Nat → List (Value × Value) → List Char →
    Except Stop (Value × List Char)
  | 0, _, _, _ => .error .tooDeep
  | steps + 1, depth, read, cs =>
      match cs with
      | '"' :: _ => do
          let (name, rest) ← stringAt cs
          match skip rest with
          | ':' :: rest => do
              let (v, rest) ← readValue steps depth (skip rest)
              let read := Value.putEntry read (.str name) v
              match skip rest with
              | '\x7d' :: after => pure (.map read, after)
              | ',' :: after => readMembers steps depth read (skip after)
              | left => refuse .comma left
          | left => refuse .colon left
      | left => refuse .name left

end

/-- Read a whole text. -/
def readText (cs : List Char) : Except Stop Value := do
  if cs.head? = some '\ufeff' then refuse .byteOrderMark cs
  let (v, rest) ← readValue (2 * cs.length + 2) depthLimit (skip cs)
  match skip rest with
  | [] => pure v
  | left => refuse .extra left

/-- The value a text is, or why it is none. -/
def read (s : String) : Except Failure Value :=
  let cs := s.toList
  match readText cs with
  | .ok v => .ok v
  | .error (.malformed reason left) =>
      .error (.malformed reason (.at cs (cs.length - left)))
  | .error .longNumber => .error .longNumber
  | .error .tooDeep => .error .tooDeep

end Verdict.Json
