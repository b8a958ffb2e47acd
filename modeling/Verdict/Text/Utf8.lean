/-
Reading UTF-8. A text is read character by character; the first byte that
no character can begin with, or a character cut short, ends the reading
with the bytes at fault and the reason.
-/
import Verdict.Text.Class

namespace Verdict.Text.Utf8

/-- Why bytes are not a text. -/
inductive Reason where
  /-- No character begins with this byte. -/
  | start
  /-- A character is broken off by a byte that cannot continue it. -/
  | continuation
  /-- A character is broken off by the end. -/
  | ending
  deriving Repr, DecidableEq

/-- The words for a reason. -/
def Reason.words : Reason → String
  | .start => "invalid start byte"
  | .continuation => "invalid continuation byte"
  | .ending => "unexpected end of data"

/-- A failed reading: the offset of the first byte at fault, that byte,
and how many bytes are at fault. -/
structure Failure where
  offset : Nat
  first : UInt8
  count : Nat
  reason : Reason
  deriving Repr, DecidableEq

/-- What is said of a failed reading: a single byte is shown, of several
the places of the first and last are. -/
def Failure.message (f : Failure) : String :=
  if f.count = 1 then
    "'utf-8' codec can't decode byte 0x"
      ++ String.ofList (padded 16 2 f.first.toNat)
      ++ s!" in position {f.offset}: {f.reason.words}"
  else
    s!"'utf-8' codec can't decode bytes in position {f.offset}-"
      ++ s!"{f.offset + f.count - 1}: {f.reason.words}"

/-- The bytes a character that begins with this byte goes on with, each
as an inclusive range, and the bits the first byte gives it. -/
def continuations (b : Nat) : Option (Nat × List (Nat × Nat)) :=
  if b < 0x80 then some (b, [])
  else if b < 0xc2 then none
  else if b < 0xe0 then some (b - 0xc0, [(0x80, 0xbf)])
  else if b = 0xe0 then some (0, [(0xa0, 0xbf), (0x80, 0xbf)])
  else if b = 0xed then some (0xd, [(0x80, 0x9f), (0x80, 0xbf)])
  else if b < 0xf0 then some (b - 0xe0, [(0x80, 0xbf), (0x80, 0xbf)])
  else if b = 0xf0 then some (0, [(0x90, 0xbf), (0x80, 0xbf), (0x80, 0xbf)])
  else if b < 0xf4 then
    some (b - 0xf0, [(0x80, 0xbf), (0x80, 0xbf), (0x80, 0xbf)])
  else if b = 0xf4 then some (4, [(0x80, 0x8f), (0x80, 0xbf), (0x80, 0xbf)])
  else none

/-- Read the rest of a character: `taken` bytes of it have been read and
gave `bits`. The answer is the code point and the bytes after it, or why
the character is broken off and after how many of its bytes. -/
def continueChar (taken bits : Nat) :
    List (Nat × Nat) → List UInt8 → Except (Reason × Nat) (Nat × List UInt8)
  | [], rest => .ok (bits, rest)
  | _ :: _, [] => .error (.ending, taken)
  | (low, high) :: more, b :: rest =>
      if low ≤ b.toNat ∧ b.toNat ≤ high then
        continueChar (taken + 1) (bits * 64 + (b.toNat - 0x80)) more rest
      else .error (.continuation, taken)

/-- Read characters from the bytes at an offset, with the characters read
so far, last first; every step takes one byte at least, so as many steps
as there are bytes suffice. -/
def decodeFrom : Nat → Nat → List Char → List UInt8 → Except Failure (List Char)
  | _, _, read, [] => .ok read.reverse
  | 0, _, read, _ :: _ => .ok read.reverse
  | steps + 1, offset, read, b :: rest =>
      match continuations b.toNat with
      | none => .error ⟨offset, b, 1, .start⟩
      | some (bits, ranges) =>
          match continueChar 1 bits ranges rest with
          | .error (reason, taken) => .error ⟨offset, b, taken, reason⟩
          | .ok (code, after) =>
              decodeFrom steps (offset + 1 + ranges.length)
                (Char.ofNat code :: read) after

/-- The text that the bytes are. -/
def decode (bytes : List UInt8) : Except Failure (List Char) :=
  decodeFrom bytes.length 0 [] bytes

end Verdict.Text.Utf8
