/-
Paths: names of files, written from the root or from wherever they are
read. A path in normal form has no empty part and no part that stands for
the place it is in.
-/
import Verdict.Text.Lines

namespace Verdict.File.Path

-- ======================================================= normal form

/-- The mark at which a path that starts from the root begins: one slash,
or two where there are exactly two. -/
def rootMark (cs : List Char) : List Char :=
  match (cs.takeWhile (· = '/')).length with
  | 0 => []
  | 2 => ['/', '/']
  | _ => ['/']

/-- The parts of a path. -/
def parts (path : String) : List String :=
  ((Text.pieces '/' path.toList).filter fun p => p ≠ [] && p ≠ ['.']).map String.ofList

/-- A path in normal form. -/
def normal (path : String) : String :=
  let shown := String.ofList (rootMark path.toList) ++ "/".intercalate (parts path)
  if shown.isEmpty then "." else shown

/-- A path further down from another; one that starts from the root stands
for itself. -/
def join (path name : String) : String :=
  if name.startsWith "/" then normal name else normal (path ++ "/" ++ name)

-- ============================================================ places

/-- The part that leads back to the folder around a place. -/
def upward : String := ".."

/-- The place that a part leads to from another place. A place is the parts
that lead to it, none of which leads back. -/
def step (place : List String) (part : String) : List String :=
  if part = upward then place.dropLast else place ++ [part]

/-- The places along the way from a place. -/
def placesFrom (place : List String) : List String → List (List String)
  | [] => []
  | part :: rest => step place part :: placesFrom (step place part) rest

/-- The places along a path, of which the last is its own. -/
def places (path : String) : List (List String) := placesFrom [] (parts path)

/-- The path to a place, from where another path starts. -/
def toPlace (path : String) (place : List String) : String :=
  String.ofList (rootMark path.toList) ++ "/".intercalate place

-- ============================================================== names

/-- The last part of a path. -/
def name (path : String) : String := (parts path).getLast?.getD ""

/-- The part of a name from its last dot on, where characters stand before
and after that dot. -/
def suffix (name : String) : String :=
  let cs := name.toList
  let ending := (cs.reverse.takeWhile (· ≠ '.')).reverse
  if ending.isEmpty ∨ cs.length ≤ ending.length + 1 then ""
  else String.ofList ('.' :: ending)

end Verdict.File.Path
