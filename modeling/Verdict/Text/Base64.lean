/-
Reading base64. Four characters of the alphabet stand for three bytes;
characters outside the alphabet are passed over, and what follows a
completed padding is not read.
-/

namespace Verdict.Text.Base64

/-- The worth of a character of the alphabet. -/
def worth? (c : Char) : Option Nat :=
  if 'A' ≤ c ∧ c ≤ 'Z' then some (c.toNat - 'A'.toNat)
  else if 'a' ≤ c ∧ c ≤ 'z' then some (c.toNat - 'a'.toNat + 26)
  else if '0' ≤ c ∧ c ≤ '9' then some (c.toNat - '0'.toNat + 52)
  else if c = '+' then some 62
  else if c = '/' then some 63
  else none

/-- The state between two characters: the place in the group of four, the
bits of the last character that no byte has taken, and the padding read
since. -/
structure State where
  place : Nat
  left : Nat
  pads : Nat

/-- Read one character of the alphabet: the byte it completes, if any, and
the state after it. -/
def step (s : State) (worth : Nat) : Option UInt8 × State :=
  match s.place with
  | 0 => (none, ⟨1, worth, 0⟩)
  | 1 => (some (UInt8.ofNat (s.left * 4 + worth / 16)), ⟨2, worth % 16, 0⟩)
  | 2 => (some (UInt8.ofNat (s.left * 16 + worth / 4)), ⟨3, worth % 4, 0⟩)
  | _ => (some (UInt8.ofNat (s.left * 64 + worth)), ⟨0, 0, 0⟩)

/-- The bytes of the rest of a text; `none` where it ends inside a
group. -/
def decodeFrom (s : State) : List Char → Option (List UInt8)
  | [] => if s.place = 0 then some [] else none
  | c :: rest =>
      if c = '=' then
        if 2 ≤ s.place then
          if 4 ≤ s.place + (s.pads + 1) then some []
          else decodeFrom { s with pads := s.pads + 1 } rest
        else decodeFrom s rest
      else
        match worth? c with
        | none => decodeFrom s rest
        | some worth =>
            let (byte, s) := step s worth
            (decodeFrom s rest).map (byte.toList ++ ·)

/-- The bytes that a text stands for. -/
def decode (cs : List Char) : Option (List UInt8) := decodeFrom ⟨0, 0, 0⟩ cs

end Verdict.Text.Base64
