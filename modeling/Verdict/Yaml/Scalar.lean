/-
Scalars: the four ways in which a text stands in a YAML text. Plain and
quoted scalars fold the lines they run over; block scalars keep them, or
fold them where both sides are not indented further. Every step of a
reader takes a character, so a text of what is left bounds their number;
what a reader has read is kept last first.
-/
import Verdict.Text.Half
import Verdict.Yaml.Cursor
import Verdict.Yaml.Failure

namespace Verdict.Yaml

-- ========================================================= plain ones

/-- Whether a plain scalar ends before the character `n` places ahead. -/
def endsPlain (inFlow : Bool) (c next : Char) : Bool :=
  isBlankOrEnd c
    || (c = ':' && (isBlankOrEnd next || (inFlow && ",[]\x7b\x7d".toList.contains next)))
    || (inFlow && ",?[]\x7b\x7d".toList.contains c)

/-- The characters of a plain scalar up to a blank or its end. -/
def plainChunk (inFlow : Bool) : List Char → List Char
  | [] => []
  | c :: rest =>
      if endsPlain inFlow c (rest.headD ending) then []
      else c :: plainChunk inFlow rest

/-- The breaks and spaces after the first break of a plain scalar, up to a
mark that separates documents; `none` where one is met. -/
def plainBreaks : List Char → Cursor → List Char → Option (List Char) × Cursor
  | [], c, breaks => (some breaks.reverse, c)
  | _ :: steps, c, breaks =>
      if c.peek = ' ' then plainBreaks steps c.next breaks
      else if isBreak c.peek then
        let (b, c) := c.lineBreak
        if c.atSeparator then (none, c) else plainBreaks steps c (b ++ breaks)
      else (some breaks.reverse, c)

/-- What breaks contribute to a folded text: the first is a space unless
others follow it, or stands for itself where it is no line feed. -/
def foldBreaks (first : List Char) (others : List Char) : List Char :=
  if first ≠ ['\n'] then first ++ others
  else if others.isEmpty then [' '] else others

/-- The space inside a plain scalar: what it contributes, the cursor after
it, and whether a line was ended. -/
def plainSpace (c : Cursor) : List Char × Cursor × Bool :=
  let (spaces, c) := c.span (· = ' ')
  if isBreak c.peek then
    let (first, c) := c.lineBreak
    if c.atSeparator then ([], c, true)
    else
      match plainBreaks c.rest c [] with
      | (none, c) => ([], c, true)
      | (some others, c) => (foldBreaks first others, c, true)
  else (spaces, c, false)

/-- A plain scalar from the cursor on: its text, the cursor after it, and
whether it ends at the beginning of a line. Outside flow collections it
goes on only on lines indented to the given column. -/
def plainFrom (inFlow : Bool) (column : Int) :
    List Char → Cursor → List Char → List Char → Bool → List Char × Cursor × Bool
  | [], c, text, _, fresh => (text.reverse, c, fresh)
  | _ :: steps, c, text, spaces, fresh =>
      if c.peek = '#' then (text.reverse, c, fresh)
      else
        let chunk := plainChunk inFlow c.rest
        if chunk.isEmpty then (text.reverse, c, fresh)
        else
          let text := chunk.reverse ++ (spaces.reverse ++ text)
          let (spaces, c, ended) := plainSpace (c.advance chunk.length)
          if spaces.isEmpty ∨ c.peek = '#' ∨ (!inFlow ∧ (c.column : Int) < column) then
            (text.reverse, c, ended)
          else plainFrom inFlow column steps c text spaces ended

/-- The plain scalar at the cursor. -/
def plainScalar (inFlow : Bool) (column : Int) (c : Cursor) : List Char × Cursor × Bool :=
  plainFrom inFlow column c.rest c [] [] false

-- ======================================================== quoted ones

/-- The character that a letter after a backslash stands for. -/
def escaped? (c : Char) : Option Char :=
  [('0', '\x00'), ('a', '\x07'), ('b', '\x08'), ('t', '\t'), ('\t', '\t'),
   ('n', '\n'), ('v', '\x0b'), ('f', '\x0c'), ('r', '\r'), ('e', '\x1b'),
   (' ', ' '), ('"', '"'), ('\\', '\\'), ('/', '/'), ('N', '\x85'),
   ('_', '\xa0'), ('L', '\u2028'), ('P', '\u2029')].lookup c

/-- The number of digits after a letter that gives a character by its code
point. -/
def escapeWidth? (c : Char) : Option Nat := [('x', 2), ('u', 4), ('U', 8)].lookup c

/-- The character of a code point that an escape gives. Two escapes never
make one character, so halves of pairs stand alone. -/
def codeChar (n : Nat) : Except Failure Char :=
  if 0x80000000 ≤ n then .error (.tag .beyondRange)
  else if 0x110000 ≤ n then .error .badValue
  else .ok (Text.ofCodePoint n)

/-- The breaks inside a quoted scalar, with the blanks between them left
out. -/
def quotedBreaks : List Char → Cursor → List Char → Except Failure (List Char × Cursor)
  | [], c, breaks => .ok (breaks.reverse, c)
  | _ :: steps, c, breaks =>
      if c.atSeparator then .error .malformed
      else
        let c := c.skip fun ch => ch = ' ' || ch = '\t'
        if isBreak c.peek then
          let (b, c) := c.lineBreak
          quotedBreaks steps c (b ++ breaks)
        else .ok (breaks.reverse, c)

/-- The blanks inside a quoted scalar: what they contribute, and the
cursor after them. -/
def quotedSpace (c : Cursor) : Except Failure (List Char × Cursor) := do
  let (blanks, c) := c.span fun ch => ch = ' ' || ch = '\t'
  if c.peek = ending then throw .malformed
  else if isBreak c.peek then
    let (first, c) := c.lineBreak
    let (others, c) ← quotedBreaks c.rest c []
    pure (foldBreaks first others, c)
  else pure (blanks, c)

/-- An escape from the character after its backslash on. -/
def quotedEscape (c : Cursor) : Except Failure (List Char × Cursor) :=
  match escaped? c.peek with
  | some e => .ok ([e], c.next)
  | none =>
      match escapeWidth? c.peek with
      | some width => do
          let c := c.next
          let digits := c.rest.take width
          if digits.length < width then throw .malformed
          match digits.mapM (Text.digitBelow? 16) with
          | none => throw .malformed
          | some ds => pure ([← codeChar (Text.ofDigits 16 ds)], c.advance width)
      | none =>
          if isBreak c.peek then
            let c := c.lineBreak.2
            quotedBreaks c.rest c []
          else .error .malformed

/-- The rest of a quoted scalar. -/
def quotedFrom (quote : Char) :
    List Char → Cursor → List Char → Except Failure (List Char × Cursor)
  | [], _, _ => .error .malformed
  | _ :: steps, c, read =>
      let ch := c.peek
      if ch = quote then
        if quote = '\'' ∧ c.ahead 1 = '\'' then
          quotedFrom quote steps (c.advance 2) ('\'' :: read)
        else .ok (read.reverse, c.next)
      else if quote = '"' ∧ ch = '\\' then do
        let (chars, c) ← quotedEscape c.next
        quotedFrom quote steps c (chars.reverse ++ read)
      else if isBlankOrEnd ch then do
        let (chars, c) ← quotedSpace c
        quotedFrom quote steps c (chars.reverse ++ read)
      else quotedFrom quote steps c.next (ch :: read)

/-- The quoted scalar at the cursor. -/
def quotedScalar (c : Cursor) : Except Failure (List Char × Cursor) :=
  quotedFrom c.peek c.rest c.next []

-- ========================================================= block ones

/-- What becomes of the breaks at the end of a block scalar. -/
inductive Chomping where
  | clip
  | strip
  | keep
  deriving Repr, DecidableEq

/-- The chomping that an indicator asks for. -/
def chomping? (c : Char) : Option Chomping :=
  if c = '+' then some .keep else if c = '-' then some .strip else none

/-- The indent that an indicator asks for. -/
def increment? (c : Char) : Except Failure (Option Nat) :=
  if c = '0' then .error .malformed
  else .ok (Text.digitBelow? 10 c)

/-- The indicators of a block scalar, in either order. -/
def blockIndicators (c : Cursor) : Except Failure (Chomping × Option Nat × Cursor) := do
  let (chomping, increment, c) ← match chomping? c.peek with
    | some chomping => do
        let c := c.next
        match ← increment? c.peek with
        | some n => pure (chomping, some n, c.next)
        | none => pure (chomping, none, c)
    | none => do
        match ← increment? c.peek with
        | some n =>
            let c := c.next
            match chomping? c.peek with
            | some chomping => pure (chomping, some n, c.next)
            | none => pure (.clip, some n, c)
        | none => pure (.clip, none, c)
  if isSpaceOrEnd c.peek then pure (chomping, increment, c) else throw .malformed

/-- The rest of a line that holds nothing but a comment. -/
def ignoredLine (c : Cursor) : Except Failure Cursor :=
  let c := c.skipSpaces.skipComment
  if isBreakOrEnd c.peek then .ok c.lineBreak.2 else .error .malformed

/-- The breaks before the first line of a block scalar, and the greatest
column reached by spaces before it. -/
def blockIndent : List Char → Cursor → List Char → Nat → List Char × Nat × Cursor
  | [], c, breaks, greatest => (breaks.reverse, greatest, c)
  | _ :: steps, c, breaks, greatest =>
      if c.peek = ' ' then
        let c := c.next
        blockIndent steps c breaks (max greatest c.column)
      else if isBreak c.peek then
        let (b, c) := c.lineBreak
        blockIndent steps c (b ++ breaks) greatest
      else (breaks.reverse, greatest, c)

/-- The breaks between lines of a block scalar indented to a column. -/
def blockBreaks (column : Nat) : List Char → Cursor → List Char → List Char × Cursor
  | [], c, breaks => (breaks.reverse, c)
  | _ :: steps, c, breaks =>
      let c := c.indentTo column column
      if isBreak c.peek then
        let (b, c) := c.lineBreak
        blockBreaks column steps c (b ++ breaks)
      else (breaks.reverse, c)

/-- The lines of a block scalar, with the text read so far: the text, the
break that ends the last line, the breaks after it, and the cursor. -/
def blockLines (folded : Bool) (column : Nat) :
    List Char → Cursor → List Char → List Char → List Char →
      List Char × List Char × List Char × Cursor
  | [], c, text, last, breaks => (text.reverse, last, breaks, c)
  | _ :: steps, c, text, last, breaks =>
      if c.column ≠ column ∨ c.peek = ending then (text.reverse, last, breaks, c)
      else
        let indented := c.peek = ' ' ∨ c.peek = '\t'
        let (line, c) := c.span fun ch => !isBreakOrEnd ch
        let text := line.reverse ++ (breaks.reverse ++ text)
        let (last, c) := c.lineBreak
        let (breaks, c) := blockBreaks column c.rest c []
        if c.column ≠ column ∨ c.peek = ending then (text.reverse, last, breaks, c)
        else if folded ∧ last = ['\n'] ∧ ¬indented ∧ c.peek ≠ ' ' ∧ c.peek ≠ '\t' then
          let gap := if breaks.isEmpty then [' '] else []
          blockLines folded column steps c (gap ++ text) last breaks
        else blockLines folded column steps c (last ++ text) last breaks

/-- The block scalar at the cursor, in a block of the given indent. -/
def blockScalar (indent : Int) (c : Cursor) : Except Failure (List Char × Cursor) := do
  let folded := c.peek = '>'
  let (chomping, increment, c) ← blockIndicators c.next
  let c ← ignoredLine c
  let least := (max 1 (indent + 1)).toNat
  let (breaks, column, c) :=
    match increment with
    | none =>
        let (breaks, greatest, c) := blockIndent c.rest c [] 0
        (breaks, max least greatest, c)
    | some n =>
        let column := least + n - 1
        let (breaks, c) := blockBreaks column c.rest c []
        (breaks, column, c)
  let (text, last, breaks, c) :=
    blockLines folded column c.rest c [] [] breaks
  let ended := match chomping with
    | .strip => []
    | .clip => last
    | .keep => last ++ breaks
  pure (text ++ ended, c)

end Verdict.Yaml
