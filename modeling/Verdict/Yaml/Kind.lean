/-
Kinds: what sort of value a node stands for. A tag names the kind by an
address; a plain scalar without a tag has the kind of the first pattern
that its text fits.
-/
import Verdict.Yaml.Number
import Verdict.Yaml.Time

namespace Verdict.Yaml

/-- The kind of value of a node. -/
inductive Kind where
  | null
  | bool
  | int
  | float
  | bytes
  | time
  | orderedMap
  | pairs
  | set
  | text
  | list
  | mapping
  /-- The key of a mapping whose entries are merged into another. -/
  | merge
  /-- The key of the value that a mapping stands for. -/
  | own
  /-- A kind that this reader does not know. -/
  | unknown
  deriving Repr, DecidableEq

namespace Kind

/-- What the addresses of the known kinds begin with. -/
def family : String := "tag:yaml.org,2002:"

/-- The kinds by the last part of their address. -/
def named : List (String × Kind) :=
  [("null", null), ("bool", bool), ("int", int), ("float", float), ("binary", bytes),
   ("timestamp", time), ("omap", orderedMap), ("pairs", pairs), ("set", set),
   ("str", text), ("seq", list), ("map", mapping), ("merge", merge), ("value", own)]

/-- The kind with an address. -/
def ofAddress (address : String) : Kind :=
  match named.find? fun k => family ++ k.1 = address with
  | some (_, kind) => kind
  | none => unknown

-- =========================================================== patterns

/-- A word in lower case, with a capital letter, and in capital letters. -/
def casings (word : String) : List (List Char) :=
  let cs := word.toList
  let capital := match cs with
    | [] => []
    | c :: rest => c.toUpper :: rest
  [cs, capital, cs.map Char.toUpper]

/-- The words for truth values. -/
def truthWords : List (String × Bool) :=
  [("yes", true), ("no", false), ("true", true), ("false", false), ("on", true),
   ("off", false)]

/-- Whether all characters are digits below a base or underscores, and
there is one. -/
def isDigitRun (base : Nat) (cs : List Char) : Bool :=
  !cs.isEmpty && cs.all fun c => c = '_' || (Text.digitBelow? base c).isSome

/-- Whether a text is a digit followed by digits and underscores. -/
def isCount (cs : List Char) : Bool :=
  (cs.head?.any Text.isAsciiDigit) && isDigitRun 10 cs

/-- Whether a text is one of the numbers below sixty, with at most two
digits. -/
def isSixtieth (cs : List Char) : Bool :=
  match cs with
  | [c] => Text.isAsciiDigit c
  | [c, d] => '0' ≤ c && c ≤ '5' && Text.isAsciiDigit d
  | _ => false

/-- Whether a text is that of a whole number. -/
def isInt (cs : List Char) : Bool :=
  let cs := (Number.signed cs).2
  match cs with
  | ['0'] => true
  | '0' :: 'b' :: rest => isDigitRun 2 rest
  | '0' :: 'x' :: rest => isDigitRun 16 rest
  | '0' :: rest => isDigitRun 8 rest
  | _ =>
      match Text.pieces ':' cs with
      | first :: others => isCount first && others.all isSixtieth
      | [] => false

/-- Whether a text is empty or an exponent with its sign. -/
def isSignedExponent (cs : List Char) : Bool :=
  match cs with
  | [] => true
  | letter :: sign :: rest =>
      (letter = 'e' || letter = 'E') && (sign = '+' || sign = '-')
        && !rest.isEmpty && rest.all Text.isAsciiDigit
  | _ => false

/-- Whether a text is made of digits and underscores before an optional
exponent. -/
def isFraction (cs : List Char) : Bool :=
  isSignedExponent (cs.dropWhile fun c => c = '_' || Text.isAsciiDigit c)

/-- Whether a text is that of a binary64 number. A point is required. -/
def isFloat (cs : List Char) : Bool :=
  let unsigned := (Number.signed cs).2
  let whole := unsigned.takeWhile (· ≠ '.')
  let fraction := unsigned.drop (whole.length + 1)
  let plainDecimal := isCount whole && isFraction fraction
  let sixtieths := match Text.pieces ':' whole with
    | first :: second :: others =>
        isCount first && (second :: others).all isSixtieth
          && (fraction.isEmpty || isDigitRun 10 fraction)
    | _ => false
  (unsigned.contains '.' && (plainDecimal || sixtieths))
    || (match cs with
        | '.' :: c :: rest => Text.isAsciiDigit c && isFraction rest
        | _ => false)
    || [".inf", ".Inf", ".INF"].any (fun word => unsigned = word.toList)
    || [".nan", ".NaN", ".NAN"].any (fun word => cs = word.toList)

/-- Whether a text is that of null. -/
def isNull (cs : List Char) : Bool :=
  cs = ['~'] || (casings "null").contains cs

/-- Whether a text is that of a truth value. -/
def isBool (cs : List Char) : Bool :=
  truthWords.any fun w => (casings w.1).contains cs

/-- Whether a text is the mark of a tag, an anchor or an alias alone. -/
def isMark (cs : List Char) : Bool := [['!'], ['&'], ['*']].contains cs

/-- The kind of a plain scalar with the given text. A line feed at its end
is passed over, but where there is nothing else. A mark that stands alone
is of a kind of its own, which no value has. -/
def ofPlain (text : List Char) : Kind :=
  let cs := Text.dropFinalBreak text
  if text.isEmpty then null
  else if cs.isEmpty then .text
  else if isBool cs then bool
  else if isFloat cs then float
  else if isInt cs then int
  else if cs = ['<', '<'] then merge
  else if isNull cs then null
  else if (TimeParts.ofWhole? cs).any TimeParts.isPlain then time
  else if cs = ['='] then own
  else if isMark cs then unknown
  else .text

end Kind

end Verdict.Yaml
