/-
Why a text is not YAML, or not a value. Most texts that fail are
malformed, or have a value of a kind that its text does not fit. A value
with an explicit tag may fail in further ways, which no reader of
documents expects: they are told apart by what was looked for.
-/

namespace Verdict

/-- An unexpected failure of a value with an explicit tag. -/
inductive TagFault where
  /-- The text of a time has no parts. -/
  | noParts
  /-- The text of a truth value is none of the known words. -/
  | noWord
  /-- The text of a number has no first character. -/
  | noCharacter
  /-- The time is no text. -/
  | noText
  /-- A number is beyond the range of code points or of binary64. -/
  | beyondRange
  deriving Repr, DecidableEq

/-- What a fault says. -/
def TagFault.message : TagFault → String
  | .noParts => "A tagged time has no parts"
  | .noWord => "A tagged truth value is no known word"
  | .noCharacter => "A tagged number is empty"
  | .noText => "A tagged time is no text"
  | .beyondRange => "A tagged number is out of range"

namespace Yaml

/-- Why a text gives no value. -/
inductive Failure where
  | malformed
  | badValue
  | tooDeep
  | tag (fault : TagFault)
  deriving Repr, DecidableEq

end Yaml

end Verdict
