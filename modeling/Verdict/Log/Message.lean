/-
Messages: texts with marks in the place of values. A mark is a percent
sign, flags, a least width, a number of places, and a letter that tells
how the value is written; two percent signs are one. The values are given
one after the other, or as one mapping whose entries the marks name.
-/
import Verdict.Decimal.Places
import Verdict.Value.Literal

namespace Verdict.Log

/-- Why a text and values make no message: the values do not fit the marks,
a mark is not written out or has no meaning, there is no entry of a name,
or a number is beyond what the letter writes. -/
inductive MessageFault where
  | misfit
  | badMark
  | unnamed
  | beyondRange
  deriving Repr, DecidableEq

/-- What the marks of a text take their values from. -/
structure Supply where
  /-- The mapping whose entries marks may name. -/
  named : Option Value
  /-- The values not taken yet. -/
  left : List Value

/-- Taking values, which may fail. -/
abbrev Taking := StateT Supply (Except MessageFault)

namespace Supply

/-- The values given for a text; a single mapping with entries gives the
values that marks name. -/
def ofValues (values : List Value) : Supply :=
  match values with
  | [v] => ⟨if v.isMap && v.truthy then some v else none, values⟩
  | _ => ⟨none, values⟩

/-- Whether a value is left that no mark took. -/
def hasSpare (s : Supply) : Bool := s.named.isNone && !s.left.isEmpty

end Supply

/-- Take the next value. -/
def takeValue : Taking Value := do
  match (← get).left with
  | [] => throw .misfit
  | v :: rest =>
      modify fun s => { s with left := rest }
      pure v

-- =============================================================== marks

/-- A mark in a text. -/
structure Mark where
  /-- Whether the value stands at the left of its width. -/
  atLeft : Bool
  /-- Whether numbers have a plus sign, or a blank in its place. -/
  plus : Bool
  blank : Bool
  /-- Whether numbers have their base before them, or keep their point. -/
  full : Bool
  /-- Whether zeros stand before a number in its width. -/
  zeros : Bool
  width : Nat
  places : Option Nat
  letter : Char
  deriving Repr

/-- The characters that are flags of a mark. -/
def flags : List Char := ['-', '+', ' ', '#', '0']

/-- The letters that have no meaning before the letter of a mark. -/
def sizeLetters : List Char := ['h', 'l', 'L']

/-- The text up to the bracket that closes the open ones, and what follows
it. -/
def bracketed : Nat → List Char → Option (List Char × List Char)
  | _, [] => none
  | isOpen, c :: rest =>
      if c = ')' ∧ isOpen = 0 then some ([], rest)
      else
        let isOpen := if c = '(' then isOpen + 1 else if c = ')' then isOpen - 1 else isOpen
        (bracketed isOpen rest).map fun (name, after) => (c :: name, after)

/-- Have the entry that a mark names as the only value left, if it names
one. -/
def takeEntry (cs : List Char) : Taking (List Char) := do
  match cs with
  | '(' :: rest =>
      match (← get).named with
      | none => throw .misfit
      | some entries =>
          match bracketed 0 rest with
          | none => throw .badMark
          | some (name, after) =>
              match entries.get? (String.ofList name) with
              | none => throw .unnamed
              | some v =>
                  modify fun s => { s with left := [v] }
                  pure after
  | _ => pure cs

/-- The whole number that a value counts as. -/
def whole? : Value → Option Int
  | .int n => some n
  | .bool b => some (if b then 1 else 0)
  | _ => none

/-- Widths are below this bound. -/
def widthBound : Nat := 1 <<< 63

/-- Numbers of places are below this bound. -/
def placesBound : Nat := 1 <<< 31

/-- The number at the beginning of a text, if there is one: digits, or a
star for the next value. -/
def amount (bound : Nat) (cs : List Char) : Taking (Option Int × List Char) := do
  match cs with
  | '*' :: rest =>
      match whole? (← takeValue) with
      | some n =>
          if n < -bound ∨ bound ≤ n then throw .beyondRange
          pure (some n, rest)
      | none => throw .misfit
  | _ =>
      let digits := cs.takeWhile Text.isAsciiDigit
      let n := Text.decimalValue digits
      if bound ≤ n then throw .badMark
      pure (if digits.isEmpty then none else some (n : Int), cs.drop digits.length)

/-- The number of places that a text begins with, if it does. -/
def placesAt (cs : List Char) : Taking (Option Nat × List Char) := do
  match cs with
  | '.' :: rest =>
      let (n, rest) ← amount placesBound rest
      pure (some (n.getD 0).toNat, rest)
  | _ => pure (none, cs)

/-- The mark of which a percent sign is the beginning, and what follows
it. -/
def markAt (cs : List Char) : Taking (Mark × List Char) := do
  let cs ← takeEntry cs
  let given := cs.takeWhile flags.contains
  let (width, cs) ← amount widthBound (cs.drop given.length)
  let (places, cs) ← placesAt cs
  let cs := match cs with
    | c :: rest => if sizeLetters.contains c then rest else cs
    | [] => []
  match cs with
  | [] => throw .badMark
  | letter :: rest =>
      let width := width.getD 0
      pure
        ({ atLeft := given.contains '-' || width < 0, plus := given.contains '+'
           blank := given.contains ' ', full := given.contains '#'
           zeros := given.contains '0', width := width.natAbs, places, letter }, rest)

-- ============================================================== values

/-- A value as it is written, in its parts. -/
structure Written where
  sign : List Char := []
  base : List Char := []
  body : List Char
  isNumber : Bool := false

namespace Mark

/-- The sign of a number. -/
def sign (m : Mark) (negative : Bool) : List Char :=
  if negative then ['-'] else if m.plus then ['+'] else if m.blank then [' '] else []

/-- A whole number in a base, with at least as many digits as the mark has
places. -/
def ofWhole (m : Mark) (base : Nat) (sign : List Char) (n : Int) : Written :=
  { sign := m.sign (n < 0), base := if m.full then sign else []
    body := Text.padded base (m.places.getD 1) n.natAbs, isNumber := true }

/-- A number by its places; there are six where the mark does not tell. -/
def ofReal (m : Mark) (form : Decimal.Form) (x : Binary64) : Written :=
  let (negative, body) := Decimal.writePlaces form m.full (m.places.getD 6) x
  { sign := m.sign negative, body := body, isNumber := true }

/-- A text, cut to as many characters as the mark has places. -/
def ofText (m : Mark) (text : String) : Written :=
  { body := match m.places with
      | some n => text.toList.take n
      | none => text.toList }

/-- The same in capital letters. -/
def inCapitals (w : Written) : Written :=
  { w with base := w.base.map Char.toUpper, body := w.body.map Char.toUpper }

/-- The whole number that a value is cut to. -/
def cut : Value → Except MessageFault Int
  | .float .nan => .error .badMark
  | .float x => match x.truncate? with
      | some n => .ok n
      | none => .error .beyondRange
  | v => match whole? v with
      | some n => .ok n
      | none => .error .misfit

/-- The binary64 number that a value counts as. -/
def real : Value → Except MessageFault Binary64
  | .float x => .ok x
  | v => match whole? v with
      | none => .error .misfit
      | some n => match Binary64.ofInt n with
          | .infinite _ => .error .beyondRange
          | x => .ok x

/-- The character that a value is, or is the code point of. -/
def character (v : Value) : Except MessageFault Char :=
  match v, whole? v with
  | .str s, _ => match s.toList with
      | [c] => .ok c
      | _ => .error .misfit
  | _, some n =>
      if 0 ≤ n ∧ n < 0x110000 then .ok (Text.ofCodePoint n.toNat)
      else .error .beyondRange
  | _, none => .error .misfit

/-- The literal of a value in ASCII. -/
def asciiLiteral (v : Value) : String :=
  String.ofList (v.literal.toList.flatMap fun c =>
    if c.toNat < 0x80 then [c] else Text.codeEscape (Text.codePoint c))

/-- A value as the letter of a mark tells. -/
def written (m : Mark) (v : Value) : Except MessageFault Written :=
  let inBase (base : Nat) (sign : List Char) : Except MessageFault Written :=
    match whole? v with
    | some n => .ok (m.ofWhole base sign n)
    | none => .error .misfit
  let inForm (form : Decimal.Form) : Except MessageFault Written :=
    (real v).map (m.ofReal form)
  match m.letter with
  | 's' => .ok (m.ofText v.plain)
  | 'r' => .ok (m.ofText v.literal)
  | 'a' => .ok (m.ofText (asciiLiteral v))
  | 'c' => (character v).map fun c => { body := [c] }
  | 'd' => (cut v).map (m.ofWhole 10 [])
  | 'i' => (cut v).map (m.ofWhole 10 [])
  | 'u' => (cut v).map (m.ofWhole 10 [])
  | 'o' => inBase 8 ['0', 'o']
  | 'x' => inBase 16 ['0', 'x']
  | 'X' => (inBase 16 ['0', 'x']).map inCapitals
  | 'e' => inForm .exponential
  | 'E' => (inForm .exponential).map inCapitals
  | 'f' => inForm .fixed
  | 'F' => (inForm .fixed).map inCapitals
  | 'g' => inForm .general
  | 'G' => (inForm .general).map inCapitals
  | _ => .error .badMark

/-- What is written, in the width of the mark: blanks stand on one side of
it, or zeros between the sign of a number and its digits. -/
def inWidth (m : Mark) (w : Written) : List Char :=
  let signed := w.sign ++ w.base
  let room := m.width - (signed.length + w.body.length)
  if m.atLeft then signed ++ w.body ++ List.replicate room ' '
  else if m.zeros && w.isNumber then signed ++ List.replicate room '0' ++ w.body
  else List.replicate room ' ' ++ signed ++ w.body

end Mark

/-- What stands in the place of a mark. -/
def filledMark (m : Mark) : Taking (List Char) := do
  match m.written (← takeValue) with
  | .ok w => pure (m.inWidth w)
  | .error f => throw f

/-- A text with values in the place of its marks. Every step takes a
character, so as many steps as there are characters suffice. -/
def filled : Nat → List Char → Taking (List Char)
  | 0, cs => pure cs
  | _ + 1, [] => pure []
  | steps + 1, '%' :: '%' :: rest => do pure ('%' :: (← filled steps rest))
  | steps + 1, '%' :: rest => do
      let (m, rest) ← markAt rest
      let text ← filledMark m
      pure (text ++ (← filled steps rest))
  | steps + 1, c :: rest => do pure (c :: (← filled steps rest))

/-- The message of a text and values, which the marks take all of; without
values the text stands as it is. -/
def message (text : String) (values : List Value) : Except MessageFault String := do
  if values.isEmpty then pure text
  else
    let (cs, supply) ← (filled text.length text.toList).run (.ofValues values)
    if supply.hasSpare then throw .misfit
    pure (String.ofList cs)

end Verdict.Log
