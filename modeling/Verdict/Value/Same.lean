/-
Sameness of values: the equality that keys of a mapping and members of a
set are told apart by. Numbers are the same when they are of equal worth,
whatever their kind, and the truth values are of the worth of zero and
one; mappings and sets are the same in whatever order they list their
entries. A value that holds itself is the same as itself only.
-/
import Verdict.Value.Basic

namespace Verdict.Value

/-- The worth of a value that is a whole number or a truth value. -/
def wholeNumber? : Value → Option Int
  | .bool b => some (if b then 1 else 0)
  | .int n => some n
  | _ => none

/-- Whether two values that hold no others are the same. -/
def sameLeaf (v w : Value) : Bool :=
  match v, w with
  | .null, .null => true
  | .float x, .float y => x.same y
  | .str s, .str t => s = t
  | .bytes b, .bytes c => b = c
  | .date d, .date e => d = e
  | .dateTime t, .dateTime u => t.same u
  | .float x, w => match w.wholeNumber? with
      | some n => x.sameInt n
      | none => false
  | v, .float y => match v.wholeNumber? with
      | some n => y.sameInt n
      | none => false
  | v, w => match v.wholeNumber?, w.wholeNumber? with
      | some n, some m => n = m
      | _, _ => false

mutual

/-- Whether two values are the same. -/
def same (v w : Value) : Bool :=
  match v with
  | .list items => match w with
      | .list others => sameItems items others
      | _ => false
  | .pair a b => match w with
      | .pair c d => same a c && same b d
      | _ => false
  | .map entries => match w with
      | .map others => entries.length = others.length && sameEntries entries others
      | _ => false
  | .set items => match w with
      | .set others => items.length = others.length && sameMembers items others
      | _ => false
  | .recurring cells n => w == .recurring cells n
  | v => sameLeaf v w

/-- Whether two lists hold the same values in the same places. -/
def sameItems : List Value → List Value → Bool
  | [], [] => true
  | v :: vs, w :: ws => same v w && sameItems vs ws
  | _, _ => false

/-- Whether every entry has one of the same key and value among others. -/
def sameEntries : List (Value × Value) → List (Value × Value) → Bool
  | [], _ => true
  | (k, v) :: rest, others =>
      (others.any fun e => same k e.1 && same v e.2) && sameEntries rest others

/-- Whether every member is the same as one of the others. -/
def sameMembers : List Value → List Value → Bool
  | [], _ => true
  | v :: rest, others => (others.any fun w => same v w) && sameMembers rest others

end

-- ===================================================== mappings by key

/-- Whether two keys name the same entry. Unlike a number that is compared,
not-a-number is the same key as itself. -/
def sameKey (k l : Value) : Bool := k == l || same k l

/-- Put an entry under a key: a key that is known keeps its place and its
own form and takes the new value, a new key goes last. -/
def putEntry (entries : List (Value × Value)) (key v : Value) : List (Value × Value) :=
  match entries with
  | [] => [(key, v)]
  | (k, w) :: rest =>
      if sameKey k key then (k, v) :: rest else (k, w) :: putEntry rest key v

end Verdict.Value
