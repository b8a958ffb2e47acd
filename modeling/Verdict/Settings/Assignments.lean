/-
Files of assignments: lines that give names values, as in `NAME=value`. A
line that holds a name alone takes its value away. A value may be quoted;
one that is not ends before a comment. A value may refer to the names of
the lines before it, and to the variables around the file.
-/
import Verdict.Table
import Verdict.Text.Class

namespace Verdict.Settings.Assignments

-- ============================================================= pieces

/-- Whether a character ends a line. -/
def isBreak (c : Char) : Bool := c = '\n' || c = '\r'

/-- Whether a character is a blank inside a line. -/
def isGap (c : Char) : Bool := Text.isBlank c && !isBreak c

/-- The text without the blanks inside the line that it begins with. -/
def skipGap (cs : List Char) : List Char := cs.dropWhile isGap

/-- What is left after the line that a text begins with. -/
def nextLine (cs : List Char) : List Char := (cs.dropWhile fun c => !isBreak c).drop 1

/-- The text without the word that marks a name for export. -/
def skipExport (cs : List Char) : List Char :=
  let word := "export".toList
  let rest := cs.drop word.length
  if cs.take word.length = word ∧ (rest.head?.any isGap) then skipGap rest else cs

/-- The text up to a quote, and what follows the quote. A quote directly
after a backslash ends the text only if no quote after it does. -/
def quotedText (quote : Char) (afterBackslash : Bool) :
    List Char → Option (List Char × List Char)
  | [] => none
  | c :: rest =>
      let further := (quotedText quote (c = '\\') rest).map fun (text, rest) =>
        (c :: text, rest)
      if c ≠ quote then further
      else if afterBackslash then further <|> some ([], rest)
      else some ([], rest)

/-- The character that a letter after a backslash stands for in a quoted
value. -/
def escaped? (quote c : Char) : Option Char :=
  if c = '\\' ∨ c = '\'' then some c
  else if quote = '\'' then none
  else
    [('"', '"'), ('a', '\x07'), ('b', '\x08'), ('f', '\x0c'), ('n', '\n'), ('r', '\r'),
     ('t', '\t'), ('v', '\x0b')].lookup c

/-- The text with its escapes resolved. -/
def unescape (quote : Char) : List Char → List Char
  | [] => []
  | '\\' :: c :: rest =>
      match escaped? quote c with
      | some e => e :: unescape quote rest
      | none => '\\' :: c :: unescape quote rest
  | c :: rest => c :: unescape quote rest

/-- A value without the comment after it: the comment begins with a hash
after a blank. -/
def withoutComment : List Char → List Char
  | [] => []
  | c :: rest =>
      if Text.isBlank c ∧ (Text.dropBlanks rest).head? = some '#' then []
      else c :: withoutComment rest

/-- A value that is not quoted, from the equals sign on. -/
def plainValue (cs : List Char) : List Char :=
  ((skipGap (withoutComment cs)).reverse.dropWhile Text.isBlank).reverse

-- ============================================================== lines

/-- The name at the beginning of a line; none where there is a comment. -/
def name? (cs : List Char) : Option (Option (List Char) × List Char) :=
  match cs with
  | '#' :: _ => some (none, cs)
  | '\'' :: rest =>
      let name := rest.takeWhile (· ≠ '\'')
      if name.isEmpty ∨ name.length = rest.length then none
      else some (some name, rest.drop (name.length + 1))
  | _ =>
      let name := cs.takeWhile fun c => c ≠ '=' && c ≠ '#' && !Text.isBlank c
      if name.isEmpty then none else some (some name, cs.drop name.length)

/-- The value after an equals sign. -/
def value? (cs : List Char) : Option (List Char × List Char) :=
  match skipGap cs with
  | '\'' :: rest => (quotedText '\'' false rest).map fun (v, rest) => (unescape '\'' v, rest)
  | '"' :: rest => (quotedText '"' false rest).map fun (v, rest) => (unescape '"' v, rest)
  | _ =>
      let line := cs.takeWhile fun c => !isBreak c
      some (plainValue line, cs.drop line.length)

/-- What is left after a line that ends with nothing but a comment. -/
def endOfLine? (cs : List Char) : Option (List Char) :=
  let afterGap := skipGap cs
  let afterComment :=
    if afterGap.head? = some '#' then afterGap.dropWhile fun c => !isBreak c else afterGap
  match afterComment with
  | [] => some []
  | '\r' :: '\n' :: rest => some rest
  | c :: rest => if isBreak c then some rest else none

/-- A name and the value that it is given, if it is given one. -/
abbrev Assignment := String × Option String

/-- The assignment that a line makes, if it makes one, and what is left
after it; a line that is no assignment is passed over. -/
def line (cs : List Char) : Option Assignment × List Char :=
  let cs := skipExport cs
  match name? cs with
  | none => (none, nextLine cs)
  | some (name, cs) =>
      let cs := skipGap cs
      let read : Option (Option (List Char) × List Char) := match cs with
        | '=' :: rest => (value? rest).map fun (v, rest) => (some v, rest)
        | _ => some (none, cs)
      match read with
      | none => (none, nextLine (skipGap (cs.drop 1)))
      | some (value, cs) =>
          match endOfLine? cs, name with
          | none, _ => (none, nextLine cs)
          | some rest, some name =>
              (some (String.ofList name, value.map String.ofList), rest)
          | some rest, none => (none, rest)

/-- The assignments of a text, in order. Every line takes a character, so
as many steps as there are characters suffice. -/
def lines : Nat → List Char → List Assignment
  | 0, _ => []
  | steps + 1, cs =>
      match Text.dropBlanks cs with
      | [] => []
      | cs =>
          let (assignment, rest) := line cs
          assignment.toList ++ lines steps rest

-- ========================================================= references

/-- The text that a name refers to; another text stands for a name that is
not known, and a name without a value refers to the empty text. -/
def referred (known : Table (Option String)) (name other : List Char) : List Char :=
  match known.at? (String.ofList name) with
  | some value => (value.getD "").toList
  | none => other

/-- The text of the value that a reference from its brace on stands for,
and what follows it. After a colon and a dash it may give a text for a
name that is not known. -/
def reference? (known : Table (Option String)) (cs : List Char) :
    Option (List Char × List Char) :=
  let name := cs.takeWhile fun c => c ≠ '\x7d' && c ≠ ':'
  match cs.drop name.length with
  | '\x7d' :: rest => some (referred known name [], rest)
  | ':' :: '-' :: rest =>
      let other := rest.takeWhile (· ≠ '\x7d')
      if other.length = rest.length then none
      else some (referred known name other, rest.drop (other.length + 1))
  | _ => none

/-- A value with its references resolved. -/
def resolved (known : Table (Option String)) : Nat → List Char → List Char
  | 0, cs => cs
  | _ + 1, [] => []
  | steps + 1, '$' :: '\x7b' :: rest =>
      match reference? known rest with
      | some (value, rest) => value ++ resolved known steps rest
      | none => '$' :: resolved known steps ('\x7b' :: rest)
  | steps + 1, c :: rest => c :: resolved known steps rest

/-- The values given by assignments one after the other, among variables
that are known around them: a later one of a name takes the place of an
earlier one, and may refer to it. -/
def resolveAll (around : Table (Option String)) :
    Table (Option String) → List Assignment → Table (Option String)
  | read, [] => read
  | read, (name, value) :: rest =>
      let value := value.map fun v =>
        String.ofList (resolved (read ++ around) v.length v.toList)
      resolveAll around (read.put name value) rest

/-- The values that a text gives to names, among variables that are known
around it. A byte order mark before the first line is no part of it. -/
def read (around : Table String) (text : String) : Table (Option String) :=
  let cs := match text.toList with
    | '\ufeff' :: rest => rest
    | cs => cs
  resolveAll (around.map fun v => (v.1, some v.2)) [] (lines (cs.length + 1) cs)

end Verdict.Settings.Assignments
