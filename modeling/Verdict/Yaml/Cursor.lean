/-
Cursors: places in a YAML text. A cursor knows what is left of the text
and its line and column; past the end stands a null character, which no
text holds.
-/
import Verdict.Text.Class

namespace Verdict.Yaml

-- ================================================= character classes

/-- The character that stands past the end. -/
def ending : Char := '\x00'

/-- Whether a character ends a line. -/
def isBreak (c : Char) : Bool :=
  c = '\r' || c = '\n' || c = '\x85' || c = '\u2028' || c = '\u2029'

/-- Whether a character ends a line or the text. -/
def isBreakOrEnd (c : Char) : Bool := c = ending || isBreak c

/-- Whether a character is a space, or ends a line or the text. -/
def isSpaceOrEnd (c : Char) : Bool := c = ' ' || isBreakOrEnd c

/-- Whether a character is a space or a tab, or ends a line or the text. -/
def isBlankOrEnd (c : Char) : Bool := c = '\t' || isSpaceOrEnd c

/-- Whether a character may stand in a text: the tab, the line feed, the
carriage return, the next-line character, and all that is no control
character, surrogate or the last of a plane. -/
def isAllowed (c : Char) : Bool :=
  let n := c.toNat
  n = 0x9 || n = 0xa || n = 0xd || (0x20 ≤ n && n ≤ 0x7e) || n = 0x85
    || (0xa0 ≤ n && n ≤ 0xd7ff) || (0xe000 ≤ n && n ≤ 0xfffd) || 0x10000 ≤ n

/-- Whether a character may stand in the name of an anchor, a directive or
a tag handle. -/
def isWord (c : Char) : Bool :=
  ('0' ≤ c && c ≤ '9') || ('A' ≤ c && c ≤ 'Z') || ('a' ≤ c && c ≤ 'z')
    || c = '-' || c = '_'

/-- Whether a character may stand in the address of a tag. -/
def isAddress (c : Char) : Bool :=
  isWord c || ";/?:@&=+$,.!~*'()[]%".toList.contains c

-- ============================================================ cursors

/-- A place in a text. -/
structure Cursor where
  rest : List Char
  index : Nat
  line : Nat
  column : Nat
  deriving Repr

namespace Cursor

/-- The beginning of a text. -/
def start (cs : List Char) : Cursor := ⟨cs, 0, 0, 0⟩

/-- The character a number of places ahead. -/
def ahead (c : Cursor) (n : Nat) : Char := (c.rest.drop n).headD ending

/-- The character at the cursor. -/
def peek (c : Cursor) : Char := c.rest.headD ending

/-- One character further: a break ends the line, of a carriage return and
a line feed the latter, and a byte order mark takes no column. -/
def next (c : Cursor) : Cursor :=
  match c.rest with
  | [] => c
  | ch :: rest =>
      let endsLine :=
        isBreak ch && !(ch = '\r' && rest.head? = some '\n')
      if endsLine then ⟨rest, c.index + 1, c.line + 1, 0⟩
      else if ch = '\ufeff' then ⟨rest, c.index + 1, c.line, c.column⟩
      else ⟨rest, c.index + 1, c.line, c.column + 1⟩

/-- A number of characters further. -/
def advance (c : Cursor) : Nat → Cursor
  | 0 => c
  | n + 1 => c.next.advance n

/-- The characters at the cursor that satisfy a test, and the cursor after
them. -/
def span (c : Cursor) (test : Char → Bool) : List Char × Cursor :=
  let taken := c.rest.takeWhile test
  (taken, c.advance taken.length)

/-- The cursor after the characters that satisfy a test. -/
def skip (c : Cursor) (test : Char → Bool) : Cursor := (c.span test).2

/-- The cursor after the spaces at it. -/
def skipSpaces (c : Cursor) : Cursor := c.skip (· = ' ')

/-- The cursor after the comment at it, if there is one. -/
def skipComment (c : Cursor) : Cursor :=
  if c.peek = '#' then c.skip fun ch => !isBreakOrEnd ch else c

/-- The cursor after the spaces at it while the column is below the given
one; `n` bounds their number. -/
def indentTo (c : Cursor) (column : Nat) : Nat → Cursor
  | 0 => c
  | n + 1 =>
      if c.column < column ∧ c.peek = ' ' then c.next.indentTo column n else c

/-- The line break at the cursor, written uniformly, and the cursor after
it; none where the cursor is at no break. -/
def lineBreak (c : Cursor) : List Char × Cursor :=
  match c.rest with
  | '\r' :: '\n' :: _ => (['\n'], c.advance 2)
  | '\r' :: _ => (['\n'], c.next)
  | '\n' :: _ => (['\n'], c.next)
  | '\x85' :: _ => (['\n'], c.next)
  | '\u2028' :: _ => (['\u2028'], c.next)
  | '\u2029' :: _ => (['\u2029'], c.next)
  | _ => ([], c)

/-- Whether the three characters at the cursor, set apart from what
follows, are the given mark. -/
def atMark (c : Cursor) (mark : Char) : Bool :=
  c.rest.take 3 = [mark, mark, mark] && isBlankOrEnd (c.ahead 3)

/-- Whether a document begins or ends at the cursor, wherever on its line
that is. -/
def atSeparator (c : Cursor) : Bool := c.atMark '-' || c.atMark '.'

end Cursor

end Verdict.Yaml
