/-
Field specs: the declaration of one field of a rule, with the label that
tools show for it. A spec of a choice lists the values of its members.
-/
import Verdict.Error.Declaration
import Verdict.Error.Defect
import Verdict.Field.Kind
import Verdict.Value.Same

namespace Verdict

/-- The declaration of a field. -/
structure FieldSpec where
  name : String
  kind : FieldKind
  label : String
  /-- The values that tools offer; of a choice, its own. -/
  options : Option (List String)
  deriving Repr, DecidableEq, Inhabited

/-- Why a field is not declared: its parts are wrong, or the members of
its choice are. -/
inductive SpecError where
  | details (details : List Detail)
  | declaration (e : DeclarationError)
  deriving Repr

namespace FieldSpec

-- ============================================================ reading

/-- Whether the field is a choice. -/
def isChoice (spec : FieldSpec) : Bool := spec.kind.isChoice

/-- The spec as tools read it. -/
def toValue (spec : FieldSpec) : Value :=
  .object ([("name", .str spec.name), ("display_name", .str spec.label),
      ("type", .str spec.kind.tag)]
    ++ match spec.options with
      | none => []
      | some options => [("options", .texts options)])

/-- What a choice is resolved from: a document value, or a member. -/
inductive Raw where
  | value (v : Value)
  | member (b : Bound)

/-- The member of a field's choice that a value stands for; a member of
that choice stands for itself. A field that is no choice has none. -/
def resolve (spec : FieldSpec) (raw : Raw) : Option (Except Defect Bound) :=
  match spec.kind with
  | .choice c =>
      let refused (v : Value) : Except Defect Bound :=
        .error (.notAnOption spec.name v (spec.options.getD []))
      match raw with
      | .member (.member choice name value) =>
          if choice = c.name then some (.ok (.member choice name value))
          else some (refused (.str value))
      | .member b => some (refused b.toValue)
      | .value v =>
          match c.member? v with
          | some m => some (.ok (.member c.name m.1 m.2))
          | none => some (refused v)
  | _ => none

-- =========================================================== declaring

/-- The text that a part of a spec has to be. -/
def textPart (field : String) : Option Value → Except (List Detail) String
  | some (.str s) => .ok s
  | some _ => .error [⟨[.name field], .notText⟩]
  | none => .error [⟨[.name field], .missing⟩]

/-- The name of a field, which is not empty. -/
def namePart (v : Option Value) : Except (List Detail) String :=
  match textPart "name" v with
  | .ok "" => .error [⟨[.name "name"], .emptyText⟩]
  | r => r

/-- The kind that a tag names. Members of a choice are not given by a tag,
so a choice declared by its tag alone has none. -/
def kindPart (v : Option Value) : Except (List Detail) FieldKind :=
  match v with
  | none => .error [⟨[.name "type"], .missing⟩]
  | some (.str "string") => .ok .text
  | some (.str "integer") => .ok .integer
  | some (.str "boolean") => .ok .boolean
  | some (.str "string_array") => .ok .textList
  | some (.str "enum") => .ok (.choice ⟨"", []⟩)
  | some _ => .error [⟨[.name "type"], .notMember FieldKind.tags⟩]

/-- The options that a spec lists, if it lists any. -/
def optionsPart (v : Option Value) : Except (List Detail) (Option (List String)) :=
  match v with
  | none => .ok none
  | some .null => .ok none
  | some v =>
      match itemsOf? v with
      | none => .error [⟨[.name "options"], .notTuple⟩]
      | some items =>
          match textItems 0 items with
          | .ok texts => .ok (some texts)
          | .error faults =>
              .error (faults.map fun f => ⟨[.name "options", .index f.1], f.2⟩)

/-- The details of a part that is wrong. -/
def faults : Except (List Detail) α → List Detail
  | .ok _ => []
  | .error details => details

/-- A spec from its parts, each of which is checked. -/
def ofParts (name : Option Value) (kind : Except (List Detail) FieldKind)
    (label options : Option Value) : Except SpecError FieldSpec :=
  let name := namePart name
  let label := textPart "display_name" label
  let options := optionsPart options
  match name, kind, label, options with
  | .ok name, .ok kind, .ok label, .ok options => .ok ⟨name, kind, label, options⟩
  | _, _, _, _ =>
      .error (.details (faults name ++ faults kind ++ faults label ++ faults options))

/-- A spec from the parts under their names; further parts are ignored. -/
def ofRecord (parts : Table Value) : Except SpecError FieldSpec :=
  ofParts (Table.at? parts "name") (kindPart (Table.at? parts "type"))
    (Table.at? parts "display_name") (Table.at? parts "options")

/-- The label of a field: the given one, or its name where none is given. -/
def labelOr (name : Value) : Option Value → Value
  | some v => if v.truthy then v else name
  | none => name

/-- Declare a field of a kind that is no choice. -/
def declare (kind : FieldKind) (name : Value) (label : Option Value) :
    Except SpecError FieldSpec :=
  ofParts (some name) (.ok kind) (some (labelOr name label)) none

/-- The members of a choice by name, the first of every value. -/
def distinctMembers : List (String × Value) → List (String × Value)
  | [] => []
  | m :: rest => m :: (distinctMembers rest).filter fun n => !m.2.same n.2

/-- Declare a field that is a choice: it has members, whose values are
texts. -/
def declareChoice (choice : String) (members : List (String × Value))
    (name : Value) (label : Option Value) : Except SpecError FieldSpec :=
  let options := (distinctMembers members).map (·.2)
  let others := options.filter fun v => v.text?.isNone
  if options.isEmpty then .error (.declaration (.noOptions name))
  else if !others.isEmpty then .error (.declaration (.optionsNotText name others))
  else
    let declared := members.filterMap fun m => m.2.text?.map fun s => (m.1, s)
    ofParts (some name) (.ok (.choice ⟨choice, declared⟩))
      (some (labelOr name label)) (some (.list options))

end FieldSpec

end Verdict
