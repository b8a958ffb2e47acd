/-
Literals: how messages show a value. Texts are quoted, lists and mappings
are written in brackets with their items in order, and what a message
names rather than shows is written plainly. A value that holds itself is
written once, with dots where it begins again. Numbers of too many digits
cannot be written at all.
-/
import Verdict.Value.Basic
import Verdict.Decimal.Shortest
import Verdict.Text.Quoted

namespace Verdict

/-- The literal of a list of texts. -/
def quotedList (items : List String) : String :=
  "[" ++ ", ".intercalate (items.map Text.quoted) ++ "]"

namespace Value

-- ============================================== literals of the leaves

/-- The literal of a truth value. -/
def boolLiteral (b : Bool) : String := if b then "True" else "False"

/-- The literal of a day. -/
def dateLiteral (d : Date) : String :=
  s!"datetime.date({d.year}, {d.month}, {d.day})"

/-- The literal of an offset from universal time. -/
def offsetLiteral (o : Int) : String :=
  if o = 0 then "datetime.timezone.utc"
  else
    let days := o.fdiv 86400
    let seconds := o.fmod 86400
    let parts := (if days = 0 then [] else [s!"days={days}"])
      ++ (if seconds = 0 then [] else [s!"seconds={seconds}"])
    "datetime.timezone(datetime.timedelta(" ++ ", ".intercalate parts ++ "))"

/-- The literal of a time: seconds and microseconds of zero are left out
from the end. -/
def dateTimeLiteral (t : DateTime) : String :=
  let numbers := [t.date.year, t.date.month, t.date.day, t.hour, t.minute]
    ++ (if t.second = 0 ∧ t.micro = 0 then [] else [t.second])
    ++ (if t.micro = 0 then [] else [t.micro])
  let offset := match t.offset with
    | none => []
    | some o => ["tzinfo=" ++ offsetLiteral o]
  "datetime.datetime(" ++ ", ".intercalate (numbers.map toString ++ offset) ++ ")"

-- ============================================================== cells

/-- What is made of a cell, given what is made of each cell from what its
links give, and what a cell gives where it stands inside itself; `path`
holds the cells that it stands in. No path is longer than there are cells,
so one level more than that suffices. -/
def alongCells {α : Type} (again : Nat → α) (cells : List ((Nat → α) → α)) :
    Nat → List Nat → Nat → α
  | 0, _, n => again n
  | levels + 1, path, n =>
      if path.contains n then again n
      else
        match cells[n]? with
        | some make => make (alongCells again cells levels (n :: path))
        | none => again n

/-- What is written for a cell where it stands inside itself. -/
def ellipsis (cells : List Value) (n : Nat) : String :=
  match cells[n]? with
  | some (.list _) => "[...]"
  | _ => "\x7b...\x7d"

-- =========================================================== literals

mutual

/-- The literal of a value, given those of its links. -/
def literalWith : Value → (Nat → String) → String
  | .null, _ => "None"
  | .bool b, _ => boolLiteral b
  | .int n, _ => toString n
  | .float x, _ => Decimal.write Decimal.shown x
  | .str s, _ => Text.quoted s
  | .bytes b, _ => Text.quotedBytes b
  | .date d, _ => dateLiteral d
  | .dateTime t, _ => dateTimeLiteral t
  | .list items, far => "[" ++ ", ".intercalate (itemLiterals items far) ++ "]"
  | .pair a b, far => "(" ++ literalWith a far ++ ", " ++ literalWith b far ++ ")"
  | .map entries, far =>
      "\x7b" ++ ", ".intercalate (entryLiterals entries far) ++ "\x7d"
  | .set items, far =>
      if items.isEmpty then "set()"
      else "\x7b" ++ ", ".intercalate (itemLiterals items far) ++ "\x7d"
  | .link n, far => far n
  | .recurring cells n, _ =>
      alongCells (ellipsis cells) (cellLiterals cells) (cells.length + 1) [] n

/-- The literals of items. -/
def itemLiterals : List Value → (Nat → String) → List String
  | [], _ => []
  | v :: rest, far => literalWith v far :: itemLiterals rest far

/-- The literals of entries. -/
def entryLiterals : List (Value × Value) → (Nat → String) → List String
  | [], _ => []
  | (k, v) :: rest, far =>
      (literalWith k far ++ ": " ++ literalWith v far) :: entryLiterals rest far

/-- The literals of cells, each from those of its links. -/
def cellLiterals : List Value → List ((Nat → String) → String)
  | [] => []
  | v :: rest => literalWith v :: cellLiterals rest

end

/-- The literal of a value. -/
def literal (v : Value) : String := literalWith v fun _ => ""

-- ======================================================= long numbers

/-- The least number with more digits than a whole number is written
with. -/
def beyondDigits : Nat := Nat.pow 10 4300

mutual

/-- Whether a value can be written, given which of its links can: its whole
numbers are not too long. -/
def writableWith : Value → (Nat → Bool) → Bool
  | .int n, _ => n.natAbs < beyondDigits
  | .list items, far => allWritable items far
  | .pair a b, far => writableWith a far && writableWith b far
  | .map entries, far => allEntriesWritable entries far
  | .set items, far => allWritable items far
  | .link n, far => far n
  | .recurring cells n, _ =>
      alongCells (fun _ => true) (cellsWritable cells) (cells.length + 1) [] n
  | _, _ => true

/-- Whether all of some values can be written. -/
def allWritable : List Value → (Nat → Bool) → Bool
  | [], _ => true
  | v :: rest, far => writableWith v far && allWritable rest far

/-- Whether all keys and values of entries can be written. -/
def allEntriesWritable : List (Value × Value) → (Nat → Bool) → Bool
  | [], _ => true
  | (k, v) :: rest, far =>
      writableWith k far && writableWith v far && allEntriesWritable rest far

/-- Whether cells can be written, each given which of its links can. -/
def cellsWritable : List Value → List ((Nat → Bool) → Bool)
  | [] => []
  | v :: rest => writableWith v :: cellsWritable rest

end

/-- Whether a value can be written. -/
def isWritable (v : Value) : Bool := writableWith v fun _ => true

/-- A value as part of a sentence: a text, a day and a time stand for
themselves, all else is shown as its literal. -/
def plain : Value → String
  | .str s => s
  | .date d => d.iso
  | .dateTime t => t.isoWith ' '
  | v => v.literal

end Value

end Verdict
