/-
Names in order: sorted by code points, and without repetitions.
-/
import Verdict.Text.Half

namespace Verdict.Text

/-- Whether a name stands before another one. -/
def before (s t : String) : Bool := codePoints s < codePoints t

/-- Put a name before the first one that is not below it. -/
def insertSorted (s : String) : List String → List String
  | [] => [s]
  | t :: rest => if before t s then t :: insertSorted s rest else s :: t :: rest

/-- The names in ascending order. -/
def sorted : List String → List String
  | [] => []
  | s :: rest => insertSorted s (sorted rest)

/-- The first occurrences, in order. -/
def firsts [BEq α] : List α → List α
  | [] => []
  | a :: rest => a :: (firsts rest).filter (· != a)

/-- The distinct names in ascending order. -/
def sortedSet (names : List String) : List String := sorted (firsts names)

/-- The names that occur more than once, in ascending order. -/
def sortedRepeats (names : List String) : List String :=
  sortedSet (names.filter fun s => 1 < names.count s)

end Verdict.Text
