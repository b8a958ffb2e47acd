/-
Tokens: what a YAML text consists of. Beside the marks that are written
there are marks for what indentation says: where a block collection
begins and ends, and which node turned out to be a key. The tokens of a
text end with the end of the text or with the place where it is broken.
-/
import Verdict.Text.Utf8
import Verdict.Yaml.Cursor
import Verdict.Yaml.Number

namespace Verdict.Yaml

/-- An instruction before a document. -/
inductive Directive where
  /-- The version of the language, of which the first part matters. -/
  | version (major : Nat)
  /-- A short form of tags and what it stands for. -/
  | handle (handle address : String)
  /-- One that says nothing to this reader. -/
  | other
  deriving Repr, DecidableEq

/-- A token. -/
inductive Token where
  | directive (d : Directive)
  | documentStart
  | documentEnd
  | blockSequence
  | blockMapping
  | blockEnd
  | blockEntry
  | flowSequence
  | flowSequenceEnd
  | flowMapping
  | flowMappingEnd
  | flowEntry
  | key
  | value
  | alias (name : String)
  | anchor (name : String)
  | tag (handle : Option String) (address : String)
  | scalar (text : String) (plain : Bool)
  | finish
  | broken (failure : Failure)
  deriving Repr, DecidableEq

namespace Token

-- ============================================================== names

/-- The word at the cursor, which has a character at least. -/
def word (c : Cursor) : Except Failure (String × Cursor) :=
  let (name, after) := c.span isWord
  if name.isEmpty then .error .malformed else .ok (String.ofList name, after)

/-- The name of an anchor or an alias, whose mark is at the cursor. -/
def anchorName (c : Cursor) : Except Failure (String × Cursor) := do
  let (name, after) ← word c.next
  if isBlankOrEnd after.peek || "?:,]\x7d%@`".toList.contains after.peek then
    pure (name, after)
  else throw .malformed

-- =============================================================== tags

/-- The bytes that percent signs at the cursor give, two hexadecimal
digits each. -/
def percentBytes :
    List Char → Cursor → List UInt8 → Except Failure (List UInt8 × Cursor)
  | [], c, read => .ok (read.reverse, c)
  | _ :: steps, c, read =>
      if c.peek = '%' then
        match Text.digitBelow? 16 (c.ahead 1), Text.digitBelow? 16 (c.ahead 2) with
        | some high, some low =>
            percentBytes steps (c.advance 3) (UInt8.ofNat (high * 16 + low) :: read)
        | _, _ => .error .malformed
      else .ok (read.reverse, c)

/-- The address at the cursor, with the characters read so far. Every step
takes a character, so a text of what is left bounds their number. -/
def addressFrom :
    List Char → Cursor → List Char → Except Failure (List Char × Cursor)
  | [], c, read => .ok (read, c)
  | _ :: steps, c, read =>
      if c.peek = '%' then do
        let (bytes, c) ← percentBytes c.rest c []
        match Text.Utf8.decode bytes with
        | .ok chars => addressFrom steps c (read ++ chars)
        | .error _ => throw .malformed
      else
        let (chars, c) := c.span fun ch => isAddress ch && ch ≠ '%'
        if chars.isEmpty then .ok (read, c) else addressFrom steps c (read ++ chars)

/-- The address at the cursor, which has a character at least. -/
def address (c : Cursor) : Except Failure (String × Cursor) := do
  let (chars, c) ← addressFrom c.rest c []
  if chars.isEmpty then throw .malformed else pure (String.ofList chars, c)

/-- The handle at the cursor: an exclamation mark, or a word between
two. -/
def handle (c : Cursor) : Except Failure (String × Cursor) :=
  if c.peek ≠ '!' then .error .malformed
  else
    let c := c.next
    if c.peek = ' ' then .ok ("!", c)
    else
      let (name, c) := c.span isWord
      if c.peek = '!' then .ok (String.ofList ('!' :: name ++ ['!']), c.next)
      else .error .malformed

/-- Whether a second exclamation mark follows in the text of the tag at the
cursor. -/
def hasHandle (c : Cursor) : Bool :=
  (c.rest.drop 1).find? (fun ch => isSpaceOrEnd ch || ch = '!') = some '!'

/-- The tag at the cursor. -/
def tagAt (c : Cursor) : Except Failure (Token × Cursor) := do
  let (token, c) ←
    if c.ahead 1 = '<' then do
      let (address, c) ← address (c.advance 2)
      if c.peek = '>' then pure (Token.tag none address, c.next) else throw .malformed
    else if isBlankOrEnd (c.ahead 1) then pure (.tag none "!", c.next)
    else do
      let (handle, c) ← if hasHandle c then handle c else pure ("!", c.next)
      let (address, c) ← address c
      pure (.tag (some handle) address, c)
  if isSpaceOrEnd c.peek then pure (token, c) else throw .malformed

-- ========================================================= directives

/-- The number at the cursor. -/
def versionPart (c : Cursor) : Except Failure (Nat × Cursor) :=
  let (digits, c) := c.span Text.isAsciiDigit
  if digits.isEmpty then .error .malformed
  else if Number.greatestDigitCount < digits.length then .error .badValue
  else .ok (Text.decimalValue digits, c)

/-- The version at the cursor. -/
def version (c : Cursor) : Except Failure (Directive × Cursor) := do
  let (major, c) ← versionPart c.skipSpaces
  if c.peek ≠ '.' then throw .malformed
  let (_, c) ← versionPart c.next
  if isSpaceOrEnd c.peek then pure (.version major, c) else throw .malformed

/-- The short form of tags at the cursor. -/
def shortForm (c : Cursor) : Except Failure (Directive × Cursor) := do
  let (handle, c) ← handle c.skipSpaces
  if c.peek ≠ ' ' then throw .malformed
  let (address, c) ← address c.skipSpaces
  if isSpaceOrEnd c.peek then pure (.handle handle address, c) else throw .malformed

/-- The directive whose mark is at the cursor, with its line. -/
def directiveAt (c : Cursor) : Except Failure (Token × Cursor) := do
  let (name, c) ← word c.next
  if !isSpaceOrEnd c.peek then throw .malformed
  let (d, c) ←
    if name = "YAML" then version c
    else if name = "TAG" then shortForm c
    else pure (.other, c.skip fun ch => !isBreakOrEnd ch)
  let c := c.skipSpaces.skipComment
  if isBreakOrEnd c.peek then pure (.directive d, c.lineBreak.2)
  else throw .malformed

end Token

end Verdict.Yaml
