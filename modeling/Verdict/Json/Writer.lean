/-
Writing JSON text. A value is written on one line, or spread over lines
with two blanks of indent for every level; lists and mappings without
items stay on their line. Characters beyond ASCII stand for themselves,
and so does half of a pair that stands alone; only on a line that is sent
to others it is written as its escape. What JSON has no form for, such as
a day or a value that holds itself, is written as a string.
-/
import Verdict.Value.Literal

namespace Verdict.Json

-- ============================================================= leaves

/-- One character of a string. -/
def writeChar (c : Char) : List Char :=
  match c with
  | '"' => ['\\', '"']
  | '\\' => ['\\', '\\']
  | '\n' => ['\\', 'n']
  | '\r' => ['\\', 'r']
  | '\t' => ['\\', 't']
  | '\x08' => ['\\', 'b']
  | '\x0c' => ['\\', 'f']
  | c => if c.toNat < 0x20 then '\\' :: 'u' :: Text.padded 16 4 c.toNat else [c]

/-- A string between its quotes. -/
def writeString (s : String) : List Char :=
  '"' :: s.toList.flatMap writeChar ++ ['"']

/-- The name that a key gives a member. -/
def keyName : Value → String
  | .null => "null"
  | .bool b => if b then "true" else "false"
  | .int n => toString n
  | .float x => Decimal.write Decimal.json x
  | v => v.plain

-- ============================================================= layout

/-- How items are set apart: on one line, or each on a line of its own
below the given level. -/
inductive Layout where
  | line
  | spread (level : Nat)
  deriving Repr, DecidableEq

/-- The layout one level deeper. -/
def Layout.inner : Layout → Layout
  | .line => .line
  | .spread level => .spread (level + 1)

/-- What stands between a bracket and the items inside it. -/
def Layout.margin : Layout → List Char
  | .line => []
  | .spread level => '\n' :: List.replicate (2 * level) ' '

/-- What stands between an item and the next one. -/
def Layout.gap : Layout → List Char
  | .line => [',', ' ']
  | .spread level => ',' :: Layout.margin (.spread level)

/-- Items between brackets. -/
def enclose (layout : Layout) (opening closing : Char)
    (items : List (List Char)) : List Char :=
  if items.isEmpty then [opening, closing]
  else
    opening :: layout.inner.margin ++ layout.inner.gap.intercalate items
      ++ layout.margin ++ [closing]

-- ============================================================= values

mutual

/-- A value in the given layout. -/
def writeValue (layout : Layout) : Value → List Char
  | .null => "null".toList
  | .bool b => (if b then "true" else "false").toList
  | .int n => (toString n).toList
  | .float x => (Decimal.write Decimal.json x).toList
  | .str s => writeString s
  | .list items => enclose layout '[' ']' (writeItems layout.inner items)
  | .pair a b =>
      enclose layout '[' ']'
        [writeValue layout.inner a, writeValue layout.inner b]
  | .map entries => enclose layout '\x7b' '\x7d' (writeEntries layout.inner entries)
  | .set items => enclose layout '[' ']' (writeItems layout.inner items)
  | .bytes b => writeString (Text.quotedBytes b)
  | .date d => writeString d.iso
  | .dateTime t => writeString t.iso
  | .link n => (toString n).toList
  | .recurring cells n => writeString (Value.literal (.recurring cells n))

/-- The items of a list. -/
def writeItems (layout : Layout) : List Value → List (List Char)
  | [] => []
  | v :: rest => writeValue layout v :: writeItems layout rest

/-- The entries of a mapping. -/
def writeEntries (layout : Layout) : List (Value × Value) → List (List Char)
  | [] => []
  | (k, v) :: rest =>
      (writeString (keyName k) ++ ':' :: ' ' :: writeValue layout v)
        :: writeEntries layout rest

end

/-- A value spread over lines. -/
def pretty (v : Value) : String := String.ofList (writeValue (.spread 0) v)

/-- A character of a line that is sent to others. -/
def sentChar (c : Char) : List Char :=
  let n := Text.codePoint c
  if Text.isHalf n then '\\' :: 'u' :: Text.padded 16 4 n else [c]

/-- A value on one line. -/
def onLine (v : Value) : String := String.ofList ((writeValue .line v).flatMap sentChar)

end Verdict.Json
