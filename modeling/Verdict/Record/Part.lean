/-
Records: named parts, each of a kind, read from the entries of a mapping.
Entries that are no part are passed over. Reading finds the faults of all
parts, in their order.
-/
import Verdict.File.Path
import Verdict.Record.Integer

namespace Verdict.Record

/-- What a part is read as. -/
inductive PartKind where
  | text
  | texts
  | integer
  /-- A whole number within bounds. -/
  | bounded (least greatest : Int)
  /-- One of some texts. -/
  | oneOf (options : List String)
  /-- A path, in normal form. -/
  | path
  deriving Repr

/-- A part of a record, with its value where there is no entry. -/
structure Part where
  name : String
  kind : PartKind
  default : Option Value := none
  deriving Repr

/-- A reading of a part: its value, or details whose places start at the
part. -/
abbrev Reading := Except (List Detail) Value

/-- A complaint about the part as a whole. -/
def complain (c : Complaint) : Reading := .error [⟨[], c⟩]

/-- The details of the items of a list that are no texts. -/
def itemDetails (index : Nat) : List Value → List Detail
  | [] => []
  | .str _ :: rest => itemDetails (index + 1) rest
  | _ :: rest => ⟨[.index index], .notText⟩ :: itemDetails (index + 1) rest

/-- A whole number within bounds. -/
def checkBounds (least greatest n : Int) : Reading :=
  if n < least then complain (.tooSmall least)
  else if greatest < n then complain (.tooLarge greatest)
  else .ok (.int n)

/-- A value read as a part of a kind. -/
def PartKind.read (kind : PartKind) (v : Value) : Reading :=
  match kind, v with
  | .text, .str s => .ok (.str s)
  | .text, _ => complain .notText
  | .texts, .list items =>
      match itemDetails 0 items with
      | [] => .ok (.list items)
      | details => .error details
  | .texts, _ => complain .notList
  | .integer, v =>
      match lenientInteger v with
      | .ok n => .ok (.int n)
      | .error c => complain c
  | .bounded least greatest, v =>
      match lenientInteger v with
      | .ok n => checkBounds least greatest n
      | .error c => complain c
  | .oneOf options, v =>
      match v.text? with
      | some s => if options.contains s then .ok v else complain (.notLiteral options)
      | none => complain (.notLiteral options)
  | .path, .str s => .ok (.str (File.Path.normal s))
  | .path, _ => complain .notPath

/-- A part read from the entries of a record. -/
def Part.read (p : Part) (entries : List (Value × Value)) : Reading :=
  match Value.lookup entries p.name with
  | some v =>
      (p.kind.read v).mapError fun details =>
        details.map fun d => ⟨.name p.name :: d.place, d.complaint⟩
  | none =>
      match p.default with
      | some v => .ok v
      | none => .error [⟨[.name p.name], .missing⟩]

/-- The parts of a record read from its entries, or all that is wrong with
them. -/
def readEntries (entries : List (Value × Value)) :
    List Part → Except (List Detail) (Table Value)
  | [] => .ok []
  | p :: rest =>
      match p.read entries, readEntries entries rest with
      | .ok v, .ok parts => .ok ((p.name, v) :: parts)
      | .ok _, .error details => .error details
      | .error details, .ok _ => .error details
      | .error details, .error more => .error (details ++ more)

/-- The parts of a record of the given name read from a value. -/
def read (record : String) (parts : List Part) (v : Value) :
    Except (List Detail) (Table Value) :=
  match v with
  | .map entries => readEntries entries parts
  | _ => .error [⟨[], .notRecord record⟩]

end Verdict.Record
