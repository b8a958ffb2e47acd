/-
Document values: what a decoded policy document, a field value or an
input of a rule consists of. Mappings keep their entries in order and may
have keys of any kind; the documents of this library use text keys, and
look nothing else up.

A list or a mapping may hold itself. Such a value is a place in a finite
number of cells, in which links stand for what leads from one cell to
another; every look at it writes out the brackets of one cell.
-/
import Verdict.Calendar
import Verdict.Decimal.Binary64
import Verdict.Table

namespace Verdict

/-- A decoded value. -/
inductive Value where
  | null
  | bool (b : Bool)
  | int (n : Int)
  | float (x : Binary64)
  | str (s : String)
  | bytes (b : List UInt8)
  | date (d : Date)
  | dateTime (t : DateTime)
  | list (items : List Value)
  | pair (first second : Value)
  | map (entries : List (Value × Value))
  | set (items : List Value)
  /-- In a cell: what the cell of this number holds. -/
  | link (cell : Nat)
  /-- What one of some cells holds, each a list or a mapping. -/
  | recurring (cells : List Value) (cell : Nat)
  deriving Repr, Inhabited

namespace Value

-- =========================================================== equality

mutual

/-- Whether two values are equal: of one kind, with equal parts in the same
places. -/
def equal : Value → Value → Bool
  | .null, .null => true
  | .bool a, .bool b => a = b
  | .int n, .int m => n = m
  | .float x, .float y => x = y
  | .str s, .str t => s = t
  | .bytes b, .bytes c => b = c
  | .date d, .date e => d = e
  | .dateTime t, .dateTime u => t = u
  | .list items, .list others => equalItems items others
  | .pair a b, .pair c d => equal a c && equal b d
  | .map entries, .map others => equalEntries entries others
  | .set items, .set others => equalItems items others
  | .link n, .link m => n = m
  | .recurring cells n, .recurring others m => equalItems cells others && n = m
  | _, _ => false

/-- Whether two lists hold equal values in the same places. -/
def equalItems : List Value → List Value → Bool
  | [], [] => true
  | v :: vs, w :: ws => equal v w && equalItems vs ws
  | _, _ => false

/-- Whether two lists of entries hold equal keys and values in the same places. -/
def equalEntries : List (Value × Value) → List (Value × Value) → Bool
  | [], [] => true
  | (k, v) :: vs, (l, w) :: ws => equal k l && equal v w && equalEntries vs ws
  | _, _ => false

end

instance : BEq Value := ⟨equal⟩

-- ============================================================== cells

/-- What a cell holds, seen from outside the cells. -/
def tied (cells : List Value) : Value → Value
  | .link n => .recurring cells n
  | .pair a b => .pair (tied cells a) (tied cells b)
  | v => v

/-- A value with its outermost brackets written out. -/
def unrolled : Value → Value
  | .recurring cells n =>
      match cells[n]? with
      | some (.list items) => .list (items.map (tied cells))
      | some (.map entries) => .map (entries.map fun e => (e.1, tied cells e.2))
      | _ => .null
  | v => v

/-- Whether a value is a place in cells. -/
def isRecurring : Value → Bool
  | .recurring .. => true
  | _ => false

-- ================================================= building mappings

/-- A mapping with text keys. -/
def object (entries : List (String × Value)) : Value :=
  .map (entries.map fun e => (.str e.1, e.2))

/-- A list of texts. -/
def texts (items : List String) : Value := .list (items.map .str)

/-- A text, or null for none. -/
def ofText? : Option String → Value
  | none => .null
  | some s => .str s

-- =================================================== reading mappings

/-- The first entry whose key is the given text. -/
def lookup : List (Value × Value) → String → Option Value
  | [], _ => none
  | (.str key, v) :: rest, name => if key = name then some v else lookup rest name
  | (_, _) :: rest, name => lookup rest name

/-- The entry of a mapping under a text key. -/
def get? (v : Value) (name : String) : Option Value :=
  match v.unrolled with
  | .map entries => lookup entries name
  | _ => none

/-- Whether a mapping has the text key. -/
def hasKey (v : Value) (name : String) : Bool := (v.get? name).isSome

/-- The text it is, if it is one. -/
def text? : Value → Option String
  | .str s => some s
  | _ => none

/-- The texts it lists, if it is a list of nothing else. -/
def textList? (v : Value) : Option (List String) :=
  match v.unrolled with
  | .list items => items.mapM text?
  | _ => none

/-- Whether it is a mapping. -/
def isMap (v : Value) : Bool :=
  match v.unrolled with
  | .map _ => true
  | _ => false

-- ============================================================= truth

/-- Whether a value counts as true: null, false, the zeros and whatever
is empty do not. -/
def truthy (v : Value) : Bool :=
  match v.unrolled with
  | .null => false
  | .bool b => b
  | .int n => n ≠ 0
  | .float x => !x.isZero
  | .str s => !s.isEmpty
  | .bytes b => !b.isEmpty
  | .date _ => true
  | .dateTime _ => true
  | .list items => !items.isEmpty
  | .pair _ _ => true
  | .map entries => !entries.isEmpty
  | .set items => !items.isEmpty
  | .link _ => true
  | .recurring .. => true

-- ============================================================= kinds

/-- The name of a value's kind, as messages give it. -/
def kindName (v : Value) : String :=
  match v.unrolled with
  | .null => "NoneType"
  | .bool _ => "bool"
  | .int _ => "int"
  | .float _ => "float"
  | .str _ => "str"
  | .bytes _ => "bytes"
  | .date _ => "date"
  | .dateTime _ => "datetime"
  | .list _ | .link _ | .recurring .. => "list"
  | .pair _ _ => "tuple"
  | .map _ => "dict"
  | .set _ => "set"

/-- Whether a value can be a key: lists, mappings and sets cannot, nor
can a pair that holds one. -/
def isKey : Value → Bool
  | .list _ => false
  | .map _ => false
  | .set _ => false
  | .link _ => false
  | .recurring .. => false
  | .pair a b => a.isKey && b.isKey
  | _ => true

end Value

end Verdict
