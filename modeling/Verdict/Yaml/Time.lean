/-
Times as YAML writes them: a day, or a day and a clock with a fraction of
a second and an offset.
-/
import Verdict.Calendar
import Verdict.Text.Lines
import Verdict.Yaml.Failure

namespace Verdict.Yaml

/-- The sign, hours and minutes of an offset. -/
structure OffsetParts where
  negative : Bool
  hours : Nat
  minutes : Nat
  deriving Repr

/-- A clock as it is written. Its offset is universal time where only that
is written. -/
structure ClockParts where
  hour : Nat
  minute : Nat
  second : Nat
  fraction : List Char
  offset : Option OffsetParts
  deriving Repr

/-- A time as it is written. -/
structure TimeParts where
  year : Nat
  month : List Char
  day : List Char
  clock : Option ClockParts
  deriving Repr

namespace TimeParts

-- ============================================================ reading

/-- Digits at the beginning of a text, at least and at most so many, and
what follows them. -/
def digits? (least most : Nat) (cs : List Char) : Option (List Char × List Char) :=
  let taken := (cs.take most).takeWhile Text.isAsciiDigit
  if least ≤ taken.length then some (taken, cs.drop taken.length) else none

/-- What follows a character. -/
def after? (c : Char) : List Char → Option (List Char)
  | d :: rest => if d = c then some rest else none
  | [] => none

/-- The text without the spaces and tabs it begins with. -/
def dropGap (cs : List Char) : List Char := cs.dropWhile fun c => c = ' ' || c = '\t'

/-- The offset that the end of a time is. -/
def offset? (cs : List Char) : Option (Option OffsetParts) :=
  if cs.isEmpty then some none
  else
    match dropGap cs with
    | ['Z'] => some (some ⟨false, 0, 0⟩)
    | sign :: rest =>
        if sign ≠ '+' ∧ sign ≠ '-' then none
        else do
          let (hours, rest) ← digits? 1 2 rest
          let minutes ←
            if rest.isEmpty then some ['0']
            else do
              let (minutes, rest) ← digits? 2 2 (← after? ':' rest)
              if rest.isEmpty then some minutes else none
          some (some ⟨sign = '-', Text.decimalValue hours, Text.decimalValue minutes⟩)
    | [] => none

/-- The clock that the end of a time is. -/
def clock? (cs : List Char) : Option ClockParts := do
  let cs ← match cs with
    | 'T' :: rest => some rest
    | 't' :: rest => some rest
    | _ => if (dropGap cs).length < cs.length then some (dropGap cs) else none
  let (hour, cs) ← digits? 1 2 cs
  let (minute, cs) ← digits? 2 2 (← after? ':' cs)
  let (second, cs) ← digits? 2 2 (← after? ':' cs)
  let (fraction, cs) := match cs with
    | '.' :: rest => (rest.takeWhile Text.isAsciiDigit, rest.dropWhile Text.isAsciiDigit)
    | _ => ([], cs)
  let offset ← offset? cs
  some
    { hour := Text.decimalValue hour, minute := Text.decimalValue minute,
      second := Text.decimalValue second, fraction := fraction, offset := offset }

/-- The time that the whole of a text is. -/
def ofWhole? (cs : List Char) : Option TimeParts := do
  let (year, cs) ← digits? 4 4 cs
  let (month, cs) ← digits? 1 2 (← after? '-' cs)
  let (day, cs) ← digits? 1 2 (← after? '-' cs)
  let clock ← if cs.isEmpty then some none else (clock? cs).map some
  some ⟨Text.decimalValue year, month, day, clock⟩

/-- The time that a text is. A line feed at its end is no part of it. -/
def ofText? (cs : List Char) : Option TimeParts := ofWhole? (Text.dropFinalBreak cs)

/-- Whether the time is recognised without a tag: a day alone has two
digits for the month and for the day. -/
def isPlain (t : TimeParts) : Bool :=
  t.clock.isSome || (t.month.length = 2 && t.day.length = 2)

-- ============================================================= values

/-- The microseconds of a fraction of a second. -/
def micros (fraction : List Char) : Nat :=
  let digits := fraction.take 6
  Text.decimalValue (digits ++ List.replicate (6 - digits.length) '0')

/-- The seconds of an offset. -/
def offsetSeconds (o : OffsetParts) : Int :=
  let n : Int := (o.hours * 60 + o.minutes) * 60
  if o.negative then -n else n

/-- The day that is written. -/
def date (t : TimeParts) : Date :=
  ⟨t.year, Text.decimalValue t.month, Text.decimalValue t.day⟩

/-- The day or the time that is written, if the calendar has it. -/
def build (t : TimeParts) : Except Failure (Date ⊕ DateTime) :=
  match t.clock with
  | none => if t.date.isValid then .ok (.inl t.date) else .error .badValue
  | some c =>
      let time : DateTime :=
        { date := t.date, hour := c.hour, minute := c.minute, second := c.second,
          micro := micros c.fraction, offset := c.offset.map offsetSeconds }
      if time.isValid then .ok (.inr time) else .error .badValue

end TimeParts

end Verdict.Yaml
