/-
Lines of a text: where a position lies, how line breaks are made uniform,
and how a text is cut into its lines, or into the pieces between marks.
-/

namespace Verdict.Text

-- =================================================== positions

/-- A place in a text: line and column count from one, the offset counts
the characters before it. -/
structure Position where
  line : Nat
  column : Nat
  offset : Nat
  deriving Repr, DecidableEq

/-- The place at which the characters before it have been read; lines end
at line feeds alone. -/
def Position.after (before : List Char) : Position where
  line := before.count '\n' + 1
  column := (before.reverse.takeWhile (· ≠ '\n')).length + 1
  offset := before.length

/-- The place of the character with the given offset. -/
def Position.at (text : List Char) (offset : Nat) : Position :=
  .after (text.take offset)

-- ================================================= line breaks

/-- Write every carriage return, with the line feed that may follow it,
as one line feed. -/
def unifyBreaks : List Char → List Char
  | [] => []
  | '\r' :: '\n' :: rest => '\n' :: unifyBreaks rest
  | '\r' :: rest => '\n' :: unifyBreaks rest
  | c :: rest => c :: unifyBreaks rest

/-- Whether a character ends a line: the feeds, the carriage return, the
separators of files, groups and records, the next-line character and the
two Unicode separators. -/
def isLineEnd (c : Char) : Bool :=
  c.toNat ∈ [0xa, 0xb, 0xc, 0xd, 0x1c, 0x1d, 0x1e, 0x85, 0x2028, 0x2029]

/-- The lines of a text without the breaks that end them; `line` holds
the characters of the line being read, last first. A text that ends with
a break has no empty last line. -/
def linesFrom (line : List Char) : List Char → List (List Char)
  | [] => if line.isEmpty then [] else [line.reverse]
  | '\r' :: '\n' :: rest => line.reverse :: linesFrom [] rest
  | c :: rest =>
      if isLineEnd c then line.reverse :: linesFrom [] rest
      else linesFrom (c :: line) rest

/-- The lines of a text. -/
def lines (s : String) : List String :=
  (linesFrom [] s.toList).map String.ofList

-- ====================================================== pieces

/-- The pieces of a text between the places of a character: one more than
there are such places. -/
def pieces (mark : Char) : List Char → List (List Char)
  | [] => [[]]
  | c :: rest =>
      match pieces mark rest with
      | [] => [[c]]
      | piece :: others =>
          if c = mark then [] :: piece :: others else (c :: piece) :: others

/-- The text without the line feed at its end, if there is one. -/
def dropFinalBreak (cs : List Char) : List Char :=
  if cs.getLast? = some '\n' then cs.dropLast else cs

end Verdict.Text
