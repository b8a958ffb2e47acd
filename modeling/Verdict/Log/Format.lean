/-
Formats of log lines. A plain line is meant for reading, a structured one
gives each part a name. Both begin with the time of the entry.
-/
import Verdict.Calendar
import Verdict.Settings.Basic

namespace Verdict.Log

-- =============================================================== times

/-- A moment: seconds since the start of 1970 and thousandths of one. -/
structure Moment where
  seconds : Int
  thousandths : Nat
  deriving Repr, DecidableEq

/-- A moment as day, clock and thousandths, in universal time. Years are not
padded. -/
def Moment.shown (m : Moment) : String :=
  let day := Date.ofDayNumber (m.seconds.fdiv 86400)
  let second := (m.seconds.fmod 86400).toNat
  toString day.year ++ String.ofList (day.iso.toList.dropWhile (· ≠ '-')) ++ " "
    ++ String.ofList (DateTime.clock (second / 3600) (second / 60 % 60) (second % 60))
    ++ "," ++ String.ofList (Text.padded 10 3 m.thousandths)

-- =============================================================== lines

/-- How lines are written. -/
inductive Format where
  | plain
  | structured
  deriving Repr, DecidableEq

/-- What a line shows: an entry, its time, and the words of an exception
that goes with it. -/
structure Line where
  entry : Entry
  time : String
  exception : Option String := none

namespace Format

/-- The name of a format. -/
def name : Format → String
  | plain => "Formatter"
  | structured => "StructuredFormatter"

/-- A line for reading; the exception stands on lines of its own. -/
def plainLine (l : Line) : String :=
  let e := l.entry
  let text := s!"{l.time} - {e.logger} - {e.level.name} - {e.message}"
  match l.exception with
  | none => text
  | some words => (if text.endsWith "\n" then text else text ++ "\n") ++ words

/-- A line of named parts. -/
def structuredLine (l : Line) : String :=
  let e := l.entry
  let text :=
    s!"timestamp={l.time} level={e.level.name} logger={e.logger} message={e.message}"
  match l.exception with
  | none => text
  | some words => text ++ " exception=" ++ words

/-- The text of a line. -/
def write : Format → Line → String
  | plain, l => plainLine l
  | structured, l => structuredLine l

/-- The format that settings ask for: a plain one for development. -/
def ofSettings (s : Settings) : Format := if s.isDevelopment then plain else structured

end Format

/-- Whether settings let an entry of a level through. -/
def passes (s : Settings) (level : Level) : Bool := s.logLevel ≤ level

/-- The least level of the entries about requests. -/
def accessLevel : Level := warning

end Verdict.Log
