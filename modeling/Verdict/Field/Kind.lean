/-
Kinds of fields, and the values bound to fields. A field holds a text, a
whole number, a truth value, a list of texts, or a member of a choice. A
choice names its members; a later member with the value of an earlier one
is another name of it.
-/
import Verdict.Field.Detail
import Verdict.Text.Order

namespace Verdict

-- ============================================================ choices

/-- A closed set of named texts. -/
structure Choice where
  name : String
  /-- Every declared member, other names included. -/
  declared : List (String × String)
  deriving Repr, DecidableEq, Inhabited

namespace Choice

/-- The members: the first declared of every value. -/
def membersOf : List (String × String) → List (String × String)
  | [] => []
  | m :: rest => m :: (membersOf rest).filter fun n => n.2 ≠ m.2

/-- The members of a choice. -/
def members (c : Choice) : List (String × String) := membersOf c.declared

/-- The values of a choice. -/
def options (c : Choice) : List String := c.members.map (·.2)

/-- The member of the given value. -/
def member? (c : Choice) (v : Value) : Option (String × String) :=
  match v with
  | .str s => c.members.find? fun m => m.2 = s
  | _ => none

end Choice

-- ============================================================== kinds

/-- What a field holds. -/
inductive FieldKind where
  | text
  | integer
  | boolean
  | textList
  | choice (c : Choice)
  deriving Repr, DecidableEq, Inhabited

namespace FieldKind

/-- The tag of a kind in documents. -/
def tag : FieldKind → String
  | text => "string"
  | integer => "integer"
  | boolean => "boolean"
  | textList => "string_array"
  | choice _ => "enum"

/-- The tags of all kinds. -/
def tags : List String := ["string", "integer", "boolean", "string_array", "enum"]

/-- Whether the kind is a choice. -/
def isChoice : FieldKind → Bool
  | choice _ => true
  | _ => false

end FieldKind

-- ======================================================= bound values

/-- A value bound to a field. -/
inductive Bound where
  | text (s : String)
  | integer (n : Int)
  | boolean (b : Bool)
  | textList (items : List String)
  /-- A member of a choice: the name of the choice, its own, its value. -/
  | member (choice name value : String)
  deriving Repr, DecidableEq, Inhabited

namespace Bound

/-- The document form of a bound value. -/
def toValue : Bound → Value
  | text s => .str s
  | integer n => .int n
  | boolean b => .bool b
  | textList items => .texts items
  | member _ _ value => .str value

/-- How messages show a bound value. -/
def literal : Bound → String
  | text s => Text.quoted s
  | integer n => toString n
  | boolean b => Value.boolLiteral b
  | textList [s] => "(" ++ Text.quoted s ++ ",)"
  | textList items => "(" ++ ", ".intercalate (items.map Text.quoted) ++ ")"
  | member choice name value => s!"<{choice}.{name}: {Text.quoted value}>"

/-- Whether a bound value counts as true; every member does. -/
def truthy : Bound → Bool
  | text s => !s.isEmpty
  | integer n => n ≠ 0
  | boolean b => b
  | textList items => !items.isEmpty
  | member .. => true

end Bound

/-- What the values bound to a field of a kind are called. -/
def FieldKind.boundName : FieldKind → String
  | text => "str"
  | integer => "int"
  | boolean => "bool"
  | textList => "tuple"
  | choice c => c.name

/-- The number of parts that a kind comes apart into, if it does: a list of texts into
its one type, and a choice into its members. -/
def FieldKind.partCount? : FieldKind → Option Nat
  | textList => some 1
  | choice c => if c.declared.isEmpty then none else some c.members.length
  | _ => none

-- ============================================================ binding

/-- The texts that items are, or what is wrong with each that is none.
`i` is the index of the first item. -/
def textItems (i : Nat) : List Value → Except (List (Nat × Complaint)) (List String)
  | [] => .ok []
  | v :: rest =>
      match v.text?, textItems (i + 1) rest with
      | some s, .ok items => .ok (s :: items)
      | some _, .error faults => .error faults
      | none, .ok _ => .error [(i, .notText)]
      | none, .error faults => .error ((i, .notText) :: faults)

/-- The items of a value that can stand for a list of texts: a list, and
a pair and a set as the list of theirs. -/
def itemsOf? (v : Value) : Option (List Value) :=
  match v.unrolled with
  | .list items => some items
  | .pair a b => some [a, b]
  | .set items => some items
  | _ => none

/-- Bind a value to a field of a kind: no kind takes a value of another
one, and a truth value is no number. -/
def FieldKind.bind (kind : FieldKind) (field : String) (v : Value) :
    Except (List Detail) Bound :=
  let here (c : Complaint) : Except (List Detail) Bound := .error [⟨[.name field], c⟩]
  match kind, v with
  | text, .str s => .ok (.text s)
  | text, _ => here .notText
  | integer, .int n => .ok (.integer n)
  | integer, _ => here .notInteger
  | boolean, .bool b => .ok (.boolean b)
  | boolean, _ => here .notBoolean
  | textList, v =>
      match itemsOf? v with
      | none => here .notTuple
      | some items =>
          match textItems 0 items with
          | .ok texts => .ok (.textList texts)
          | .error faults =>
              .error (faults.map fun f => ⟨[.name field, .index f.1], f.2⟩)
  | choice c, v =>
      match c.member? v with
      | some m => .ok (.member c.name m.1 m.2)
      | none => here (.notMember (c.declared.map (·.2)))

end Verdict
