/-
Why a text is not JSON. A malformed text is refused with the reason and
the place; numbers of too many digits and texts nested too deep are
refused as such.
-/
import Verdict.Text.Lines

namespace Verdict.Json

/-- What a reader missed, or met, in a malformed text. -/
inductive Reason where
  | value
  | name
  | colon
  | comma
  | extra
  | unterminated
  | control
  | escape
  | codeUnit
  | byteOrderMark
  deriving Repr, DecidableEq

/-- The words for a reason. -/
def Reason.words : Reason → String
  | .value => "Expecting value"
  | .name => "Expecting property name enclosed in double quotes"
  | .colon => "Expecting ':' delimiter"
  | .comma => "Expecting ',' delimiter"
  | .extra => "Extra data"
  | .unterminated => "Unterminated string starting at"
  | .control => "Invalid control character at"
  | .escape => "Invalid \\escape"
  | .codeUnit => "Invalid \\uXXXX escape"
  | .byteOrderMark => "Unexpected UTF-8 BOM (decode using utf-8-sig)"

/-- Why a text cannot be read. -/
inductive Failure where
  | malformed (reason : Reason) (place : Text.Position)
  | longNumber
  | tooDeep
  deriving Repr, DecidableEq

/-- The words for a malformed text. -/
def malformedMessage (reason : Reason) (place : Text.Position) : String :=
  s!"{reason.words}: line {place.line} column {place.column} (char {place.offset})"

end Verdict.Json
