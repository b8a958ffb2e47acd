/-
Dates and times of the Gregorian calendar, extended to all years. Days
are counted from the first of January 1970; months are counted from March
for the count, so that the day that leap years add is a year's last.
-/
import Verdict.Text.Class

namespace Verdict

/-- A day of the calendar. -/
structure Date where
  year : Nat
  month : Nat
  day : Nat
  deriving Repr, DecidableEq, Inhabited

/-- A time of a day, with its offset from universal time in seconds where
it is known. -/
structure DateTime where
  date : Date
  hour : Nat
  minute : Nat
  second : Nat
  micro : Nat
  offset : Option Int
  deriving Repr, DecidableEq, Inhabited

namespace Date

-- ============================================ lengths and validity

/-- Whether the year has a twenty-ninth of February. -/
def isLeap (year : Nat) : Bool :=
  year % 4 = 0 && (year % 100 ≠ 0 || year % 400 = 0)

/-- The number of days of a month. -/
def daysIn (year month : Nat) : Nat :=
  if month = 2 then if isLeap year then 29 else 28
  else if month ∈ [4, 6, 9, 11] then 30 else 31

/-- Whether the day is one of the years 1 to 9999. -/
def isValid (d : Date) : Bool :=
  1 ≤ d.year && d.year ≤ 9999 && 1 ≤ d.month && d.month ≤ 12
    && 1 ≤ d.day && d.day ≤ daysIn d.year d.month

-- =================================================== counting days

/-- Days from the first of January 1970 to the day. -/
def dayNumber (d : Date) : Int :=
  let y : Int := if d.month ≤ 2 then (d.year : Int) - 1 else d.year
  let m : Int := if d.month ≤ 2 then (d.month : Int) + 9 else (d.month : Int) - 3
  let era := y.fdiv 400
  let yearOfEra := y - era * 400
  let dayOfYear := (153 * m + 2).fdiv 5 + d.day - 1
  let dayOfEra := yearOfEra * 365 + yearOfEra.fdiv 4 - yearOfEra.fdiv 100 + dayOfYear
  era * 146097 + dayOfEra - 719468

/-- The day a number of days after the first of January 1970. -/
def ofDayNumber (n : Int) : Date :=
  let n := n + 719468
  let era := n.fdiv 146097
  let dayOfEra := n - era * 146097
  let yearOfEra :=
    (dayOfEra - dayOfEra.fdiv 1460 + dayOfEra.fdiv 36524 - dayOfEra.fdiv 146096).fdiv 365
  let dayOfYear :=
    dayOfEra - (365 * yearOfEra + yearOfEra.fdiv 4 - yearOfEra.fdiv 100)
  let m := (5 * dayOfYear + 2).fdiv 153
  let day := dayOfYear - (153 * m + 2).fdiv 5 + 1
  let month := if m < 10 then m + 3 else m - 9
  let year := yearOfEra + era * 400 + (if month ≤ 2 then 1 else 0)
  ⟨year.toNat, month.toNat, day.toNat⟩

-- ============================================================ text

/-- The day as `YYYY-MM-DD`. -/
def iso (d : Date) : String :=
  String.ofList (Text.padded 10 4 d.year ++ '-' :: Text.padded 10 2 d.month
    ++ '-' :: Text.padded 10 2 d.day)

end Date

namespace DateTime

/-- Whether the time is one of a valid day, without leap seconds, and its
offset less than a day. -/
def isValid (t : DateTime) : Bool :=
  t.date.isValid && t.hour < 24 && t.minute < 60 && t.second < 60
    && t.micro < 1000000 && (t.offset.all fun o => o.natAbs < 86400)

/-- Microseconds from the start of 1970 by the time's own clock. -/
def localMicros (t : DateTime) : Int :=
  (((t.date.dayNumber * 24 + t.hour) * 60 + t.minute) * 60 + t.second) * 1000000
    + t.micro

/-- Whether two times are the same: of the same clock where neither
knows its offset, of the same instant where both do. -/
def same (t u : DateTime) : Bool :=
  match t.offset, u.offset with
  | none, none => t.localMicros = u.localMicros
  | some o, some p =>
      t.localMicros - o * 1000000 = u.localMicros - p * 1000000
  | _, _ => false

/-- An offset as `+HH:MM`, with seconds where it has some. -/
def isoOffset (o : Int) : List Char :=
  let n := o.natAbs
  let sign := if o < 0 then '-' else '+'
  sign :: Text.padded 10 2 (n / 3600) ++ ':' :: Text.padded 10 2 (n / 60 % 60)
    ++ (if n % 60 = 0 then [] else ':' :: Text.padded 10 2 (n % 60))

/-- Hours, minutes and seconds as `HH:MM:SS`. -/
def clock (hour minute second : Nat) : List Char :=
  Text.padded 10 2 hour ++ ':' :: Text.padded 10 2 minute
    ++ ':' :: Text.padded 10 2 second

/-- The time as day, separator, clock and offset; microseconds are
written where there are some. -/
def isoWith (separator : Char) (t : DateTime) : String :=
  let fraction := if t.micro = 0 then [] else '.' :: Text.padded 10 6 t.micro
  let offset := match t.offset with
    | none => []
    | some o => isoOffset o
  t.date.iso ++ String.ofList
    (separator :: clock t.hour t.minute t.second ++ fraction ++ offset)

/-- The time in the exchange form, with `T` as separator. -/
def iso (t : DateTime) : String := t.isoWith 'T'

end DateTime

end Verdict
