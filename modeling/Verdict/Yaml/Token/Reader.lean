/-
Reading tokens. Outside flow collections the columns decide: a token that
stands further to the right than the open block opens a block, one that
stands further to the left closes all that begin to its right. A node may
turn out to be a key only when the colon after it is met, so the place
before each such node is remembered, one for every open flow collection,
and the mark for the key is put there afterwards.
-/
import Verdict.Yaml.Scalar
import Verdict.Yaml.Token

namespace Verdict.Yaml

/-- A place at which a key may have begun. -/
structure KeyPlace where
  /-- The number of tokens before it. -/
  before : Nat
  /-- Whether the text is broken unless a key begins there. -/
  required : Bool
  index : Nat
  line : Nat
  column : Nat
  deriving Repr

/-- The greatest number of characters of a key that is not marked as one. -/
def greatestKeyLength : Nat := 1024

/-- Tokens read so far, and what is known at the cursor after them. -/
structure Scanner where
  cursor : Cursor
  /-- The tokens, last first. -/
  read : List Token
  count : Nat
  /-- The column of the open block, and those of the blocks around it. -/
  indent : Int
  indents : List Int
  /-- Whether a key may begin at the cursor without a mark. -/
  mayBeginKey : Bool
  /-- Where a key may have begun in the open collection, and in the flow
  collections and the block around it. -/
  place : Option KeyPlace
  places : List (Option KeyPlace)
  deriving Repr

namespace Scanner

/-- Before the first token. -/
def start (text : List Char) : Scanner :=
  { cursor := .start text, read := [], count := 0, indent := -1, indents := [],
    mayBeginKey := true, place := none, places := [] }

/-- Whether a flow collection is open. -/
def inFlow (s : Scanner) : Bool := !s.places.isEmpty

/-- Whether something written only outside flow collections may begin at
the cursor. -/
def mayBeginEntry (s : Scanner) : Bool := s.inFlow || s.mayBeginKey

/-- Add a token. -/
def push (s : Scanner) (t : Token) : Scanner :=
  { s with read := t :: s.read, count := s.count + 1 }

/-- Put a token before all but the first `n`. -/
def insertAt (s : Scanner) (n : Nat) (t : Token) : Scanner :=
  let later := s.count - n
  { s with read := s.read.take later ++ t :: s.read.drop later, count := s.count + 1 }

-- ============================================================= blocks

/-- How many blocks end at a column, and the indents that remain. -/
def unwound (column indent : Int) : List Int → Nat × Int × List Int
  | [] => (0, indent, [])
  | outer :: rest =>
      if column < indent then
        let (n, indent, indents) := unwound column outer rest
        (n + 1, indent, indents)
      else (0, indent, outer :: rest)

/-- End the blocks that begin to the right of a column. -/
def unwind (s : Scanner) (column : Int) : Scanner :=
  if s.inFlow then s
  else
    let (n, indent, indents) := unwound column s.indent s.indents
    { s with
        read := List.replicate n .blockEnd ++ s.read, count := s.count + n,
        indent := indent, indents := indents }

/-- Whether a block begins with something at a column. -/
def beginsBlock (s : Scanner) (column : Nat) : Bool := !s.inFlow && s.indent < column

/-- Open a block at a column. -/
def openBlock (s : Scanner) (column : Nat) : Scanner :=
  { s with indent := column, indents := s.indent :: s.indents }

/-- Begin a block with something at the cursor, unless it goes on with
one. -/
def enterBlock (s : Scanner) (t : Token) : Scanner :=
  if s.beginsBlock s.cursor.column then (s.openBlock s.cursor.column).push t else s

-- =============================================================== keys

/-- Forget the place of a key, which must not be required. -/
def forgetPlace (s : Scanner) : Except Failure Scanner :=
  match s.place with
  | some p => if p.required then .error .malformed else .ok { s with place := none }
  | none => .ok s

/-- Remember the cursor as a place at which a key may begin. -/
def savePlace (s : Scanner) : Except Failure Scanner :=
  if s.mayBeginKey then do
    let s ← s.forgetPlace
    let c := s.cursor
    let required := !s.inFlow && s.indent = c.column
    pure { s with place := some ⟨s.count, required, c.index, c.line, c.column⟩ }
  else .ok s

/-- Whether a key that began at a place cannot go on to the cursor. -/
def isPast (c : Cursor) (p : KeyPlace) : Bool :=
  p.line ≠ c.line || greatestKeyLength < c.index - p.index

/-- Forget the places from which no key goes on to the cursor. -/
def forgetPast (s : Scanner) : Except Failure Scanner :=
  let past := (s.place :: s.places).filterMap fun p => p.filter (isPast s.cursor)
  if past.any KeyPlace.required then .error .malformed
  else
    let keep (p : Option KeyPlace) := p.filter fun p => !isPast s.cursor p
    .ok { s with place := keep s.place, places := s.places.map keep }

-- ============================================================= tokens

/-- The scanner before the next token: past spaces, comments and breaks.
Every step takes a break, so a text of what is left bounds their number. -/
def skipToToken : List Char → Scanner → Scanner
  | [], s => s
  | _ :: steps, s =>
      let c := s.cursor.skipSpaces.skipComment
      if isBreak c.peek then
        let mayBeginKey := s.mayBeginKey || !s.inFlow
        skipToToken steps { s with cursor := c.lineBreak.2, mayBeginKey := mayBeginKey }
      else { s with cursor := c }

/-- A token that ends every block: the end, a directive, a separator of
documents. -/
def outermost (s : Scanner) (t : Token) (c : Cursor) : Except Failure Scanner := do
  let s ← (s.unwind (-1)).forgetPlace
  pure ({ s with mayBeginKey := false, cursor := c }.push t)

/-- The beginning of a flow collection. -/
def beginFlow (s : Scanner) (t : Token) : Except Failure Scanner := do
  let s ← s.savePlace
  pure ({ s with mayBeginKey := true, places := s.place :: s.places, place := none,
                 cursor := s.cursor.next }.push t)

/-- The end of a flow collection. -/
def endFlow (s : Scanner) (t : Token) : Except Failure Scanner :=
  match s.places with
  | [] => .error .malformed
  | place :: places =>
      .ok ({ s with mayBeginKey := false, place := place, places := places,
                    cursor := s.cursor.next }.push t)

/-- The comma between the entries of a flow collection. -/
def flowEntry (s : Scanner) : Except Failure Scanner := do
  let s ← s.forgetPlace
  pure ({ s with mayBeginKey := true, cursor := s.cursor.next }.push .flowEntry)

/-- The dash before an entry of a block sequence. -/
def blockEntry (s : Scanner) : Except Failure Scanner := do
  if !s.mayBeginEntry then throw .malformed
  let s ← (s.enterBlock .blockSequence).forgetPlace
  pure ({ s with mayBeginKey := true, cursor := s.cursor.next }.push .blockEntry)

/-- The question mark before a key. -/
def markedKey (s : Scanner) : Except Failure Scanner := do
  if !s.mayBeginEntry then throw .malformed
  let s ← (s.enterBlock .blockMapping).forgetPlace
  pure ({ s with mayBeginKey := !s.inFlow, cursor := s.cursor.next }.push .key)

/-- The colon before a value: the node before it, if it may be a key, is
marked as one. -/
def value (s : Scanner) : Except Failure Scanner :=
  match s.place with
  | some p =>
      let keyed := { s with place := none }.insertAt p.before .key
      let opened :=
        if s.beginsBlock p.column then
          (keyed.openBlock p.column).insertAt p.before .blockMapping
        else keyed
      .ok ({ opened with mayBeginKey := false, cursor := s.cursor.next }.push .value)
  | none =>
      if !s.mayBeginEntry then .error .malformed
      else
        let opened := s.enterBlock .blockMapping
        .ok ({ opened with mayBeginKey := !s.inFlow,
                           cursor := s.cursor.next }.push .value)

/-- A token that begins a node or stands before one. -/
def nodeToken (s : Scanner) (t : Token) (c : Cursor) (mayBeginKey : Bool) :
    Except Failure Scanner := do
  let s ← s.savePlace
  pure ({ s with mayBeginKey := mayBeginKey, cursor := c }.push t)

/-- A block scalar. -/
def blockText (s : Scanner) : Except Failure Scanner := do
  let s ← s.forgetPlace
  let (text, c) ← blockScalar s.indent s.cursor
  pure ({ s with mayBeginKey := true, cursor := c }.push
    (.scalar (String.ofList text) false))

/-- Whether a plain scalar begins at the cursor: with a character that
marks nothing, or with a dash, or outside flow collections a question mark
or a colon, before what is no blank. -/
def beginsPlain (s : Scanner) : Bool :=
  let c := s.cursor.peek
  if isBlankOrEnd c then false
  else if c = '-' || (!s.inFlow && (c = '?' || c = ':')) then
    !isBlankOrEnd (s.cursor.ahead 1)
  else !("?:,[]\x7b\x7d#&*!|>'\"%@`".toList.contains c)

/-- The scanner after the token at the cursor. -/
def token (s : Scanner) : Except Failure Scanner :=
  let c := s.cursor
  let ch := c.peek
  let separated := isBlankOrEnd (c.ahead 1)
  if ch = '%' ∧ c.column = 0 then do
    let (t, after) ← Token.directiveAt c
    s.outermost t after
  else if c.column = 0 ∧ c.atMark '-' then s.outermost .documentStart (c.advance 3)
  else if c.column = 0 ∧ c.atMark '.' then s.outermost .documentEnd (c.advance 3)
  else if ch = '[' then s.beginFlow .flowSequence
  else if ch = '\x7b' then s.beginFlow .flowMapping
  else if ch = ']' then s.endFlow .flowSequenceEnd
  else if ch = '\x7d' then s.endFlow .flowMappingEnd
  else if ch = ',' then s.flowEntry
  else if ch = '-' ∧ separated then s.blockEntry
  else if ch = '?' ∧ (s.inFlow ∨ separated) then s.markedKey
  else if ch = ':' ∧ (s.inFlow ∨ separated) then s.value
  else if ch = '*' then do
    let (name, after) ← Token.anchorName c
    s.nodeToken (.alias name) after false
  else if ch = '&' then do
    let (name, after) ← Token.anchorName c
    s.nodeToken (.anchor name) after false
  else if ch = '!' then do
    let (t, after) ← Token.tagAt c
    s.nodeToken t after false
  else if (ch = '|' ∨ ch = '>') ∧ !s.inFlow then s.blockText
  else if ch = '\'' ∨ ch = '"' then do
    let (text, after) ← quotedScalar c
    s.nodeToken (.scalar (String.ofList text) false) after false
  else if s.beginsPlain then
    let (text, after, fresh) := plainScalar s.inFlow (s.indent + 1) c
    s.nodeToken (.scalar (String.ofList text) true) after fresh
  else .error .malformed

/-- The scanner before the next token, with the blocks that end before it
ended. -/
def toToken (s : Scanner) : Except Failure Scanner := do
  let s ← (skipToToken s.cursor.rest s).forgetPast
  pure (s.unwind s.cursor.column)

/-- The tokens of a text that is broken after those read. No token at which
a key may have begun can be used before the place where that is settled,
so the first such token is already broken. -/
def brokenOff (s : Scanner) (failure : Failure) : List Token :=
  let unsettled := (s.place :: s.places).filterMap fun p =>
    p.filter fun p => !isPast s.cursor p
  let usable := (unsettled.map KeyPlace.before).foldl min s.count
  s.read.reverse.take usable ++ [.broken failure]

/-- The tokens of the rest of the text. Every token but the last takes a
character, so as many steps as there are characters suffice. -/
def tokens : Nat → Scanner → List Token
  | 0, s => s.brokenOff .malformed
  | n + 1, s =>
      match s.toToken with
      | .error failure => s.brokenOff failure
      | .ok t =>
          if t.cursor.peek = ending then
            match t.outermost .finish t.cursor with
            | .ok t => t.read.reverse
            | .error failure => s.brokenOff failure
          else
            match t.token with
            | .ok t => tokens n t
            | .error failure => s.brokenOff failure

end Scanner

/-- The tokens of a text. A byte order mark before the first is no part of
any. -/
def Token.ofText (text : List Char) : List Token :=
  if text.all isAllowed then
    let s := Scanner.start text
    let s := if s.cursor.peek = '\ufeff' then { s with cursor := s.cursor.next } else s
    s.tokens (text.length + 1)
  else [.broken .malformed]

end Verdict.Yaml
