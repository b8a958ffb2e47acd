/-
Quoted literals: how messages show a text. A text stands between single
quotes, or between double quotes where it holds a single quote and no
double one. The quote, the backslash and the characters that are not
printed as themselves are escaped.
-/
import Verdict.Text.Half
import Verdict.Text.Printable

namespace Verdict.Text

/-- The quote a text is written between. -/
def quoteFor (cs : List Char) : Char :=
  if cs.contains '\'' && !cs.contains '"' then '"' else '\''

/-- The escape of a character by its code point, in the shortest of the
three widths that holds it. -/
def codeEscape (n : Nat) : List Char :=
  if n < 0x100 then '\\' :: 'x' :: padded 16 2 n
  else if n < 0x10000 then '\\' :: 'u' :: padded 16 4 n
  else '\\' :: 'U' :: padded 16 8 n

/-- One character of a literal between the given quotes. -/
def quotedChar (quote c : Char) : List Char :=
  if c = quote ∨ c = '\\' then ['\\', c]
  else if c = '\n' then ['\\', 'n']
  else if c = '\r' then ['\\', 'r']
  else if c = '\t' then ['\\', 't']
  else if isPrintable c then [c]
  else codeEscape (codePoint c)

/-- The literal of a text. -/
def quoted (s : String) : String :=
  let cs := s.toList
  let quote := quoteFor cs
  String.ofList (quote :: cs.flatMap (quotedChar quote) ++ [quote])

/-- One byte of a byte literal between the given quotes. -/
def quotedByte (quote : Char) (b : UInt8) : List Char :=
  let c := Char.ofNat b.toNat
  if c = quote ∨ c = '\\' then ['\\', c]
  else if c = '\n' then ['\\', 'n']
  else if c = '\r' then ['\\', 'r']
  else if c = '\t' then ['\\', 't']
  else if 0x20 ≤ b.toNat ∧ b.toNat < 0x7f then [c]
  else '\\' :: 'x' :: padded 16 2 b.toNat

/-- The literal of a run of bytes. -/
def quotedBytes (bytes : List UInt8) : String :=
  let quote := quoteFor (bytes.map fun b => Char.ofNat b.toNat)
  String.ofList
    ('b' :: quote :: bytes.flatMap (quotedByte quote) ++ [quote])

end Verdict.Text
