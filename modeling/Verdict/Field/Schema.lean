/-
Schemas: the fields of a rule, in the order of their declaration and
without two of one name, the binding of values to them, and the records
that binding gives. Records keep some names for themselves: no field may
have the one kind of them, a field of the other kind is declared like any
other and then hidden, read as something else, or called.
-/
import Verdict.Field.Spec

namespace Verdict

/-- The fields of a rule. -/
structure Schema where
  specs : List FieldSpec
  names_nodup : (specs.map (·.name)).Nodup

/-- Values bound to fields, by name in the order of the schema. -/
abbrev Bindings := Table Bound

namespace Schema

/-- The schema without fields. -/
def empty : Schema := ⟨[], List.nodup_nil⟩

instance : Inhabited Schema := ⟨empty⟩

/-- How a field is refused in the place of a table of further parts, which has to come
apart into pairs. -/
def tableReserve (kind : FieldKind) : Reserve :=
  match kind.partCount? with
  | none | some 2 => .otherKind
  | some _ => .otherLength

/-- The names that no field may have, in the order in which they are come upon when a kind
of records is made. Those with underscores on both sides name parts of the kind; others of
that form, about which no more is known than that no value binds to them, are let through. -/
def reserved : List (List String × (FieldKind → Reserve)) :=
  [(["__config__"], fun _ => .otherKind), (["__base__"], fun _ => .notTaken),
   (["__validators__"], tableReserve), (["__cls_kwargs__"], tableReserve),
   (["__annotations__"], fun _ => .lacking), (["Config"], fun _ => .notTaken),
   (["__root__", "__qualname__", "__slots__", "__classcell__", "__type_params__"],
     fun _ => .otherKind),
   (["model_dump", "model_dump_json", "model_validate", "model_validate_json",
     "model_validate_strings"], fun _ => .operation)]

/-- Why the first field with a reserved name is refused. -/
def reservedField? (specs : List FieldSpec) : Option DeclarationError :=
  reserved.findSome? fun group =>
    (specs.find? fun spec => group.1.contains spec.name).map fun spec =>
      .reservedField spec.name (group.2 spec.kind)

/-- A schema of the given fields. -/
def ofSpecs (specs : List FieldSpec) : Except DeclarationError Schema :=
  if h : (specs.map (·.name)).Nodup then
    match reservedField? specs with
    | some e => .error e
    | none => .ok ⟨specs, h⟩
  else .error (.repeatedFields (Text.sortedRepeats (specs.map (·.name))))

/-- The names of the fields. -/
def names (s : Schema) : List String := s.specs.map (·.name)

/-- The field of the given name. -/
def find? (s : Schema) (name : String) : Option FieldSpec :=
  s.specs.find? fun spec => spec.name = name

/-- The schema as tools read it. -/
def toValue (s : Schema) : Value := .list (s.specs.map (·.toValue))

/-- How messages show a schema. -/
def literal (s : Schema) : String :=
  "FieldSchema(" ++ ", ".intercalate s.names ++ ")"

-- ============================================================ binding

/-- The name under which records keep their own rules. -/
def rulesName : String := "model_config"

/-- The name of the operation that makes a record. -/
def makerName : String := "__init__"

/-- The name of the operation that a record ends with when its values are bound. -/
def finisherName : String := "model_post_init"

/-- Whether records hold a value for the field: a field whose name begins
with an underscore is kept out of reach, and so is one with the name of the
rules of records. -/
def isHeld (spec : FieldSpec) : Bool :=
  spec.name.toList.head? ≠ some '_' && spec.name ≠ rulesName

/-- Whether values can be bound to the field: records hold one for it, and do
not call it. -/
def isBindable (spec : FieldSpec) : Bool :=
  isHeld spec && spec.name ≠ finisherName

/-- Bind the value of one field. -/
def bindField (entries : List (Value × Value)) (spec : FieldSpec) :
    Except (List Detail) Bound :=
  match Value.lookup entries spec.name with
  | none => .error [⟨[.name spec.name], .missing⟩]
  | some v => spec.kind.bind spec.name v

/-- Whether a key names no field that records hold a value for. -/
def isUndeclared (s : Schema) (key : Value) : Bool :=
  match key with
  | .str name => !(s.specs.any fun spec => isHeld spec && spec.name = name)
  | _ => true

/-- The step to the entry of a key. -/
def keyStep : Value → Step
  | .str name => .name name
  | key => .name key.plain

/-- The complaints about keys that name no field. -/
def undeclaredDetails (s : Schema) (entries : List (Value × Value)) : List Detail :=
  (entries.filter fun e => s.isUndeclared e.1).map
    fun e => ⟨[keyStep e.1], .undeclared⟩

/-- The bindings of the given fields, or every complaint about them. -/
def bindFields (entries : List (Value × Value)) :
    List FieldSpec → Except (List Detail) Bindings
  | [] => .ok []
  | spec :: rest =>
      match bindField entries spec, bindFields entries rest with
      | .ok b, .ok bindings => .ok ((spec.name, b) :: bindings)
      | .ok _, .error faults => .error faults
      | .error faults, .ok _ => .error faults
      | .error faults, .error more => .error (faults ++ more)

/-- Bind the entries of a mapping: every field has to have an entry of its
kind, and every entry a field. -/
def bindEntries (s : Schema) (entries : List (Value × Value)) :
    Except (List Detail) Bindings :=
  match bindFields entries (s.specs.filter isHeld), s.undeclaredDetails entries with
  | .ok bindings, [] => .ok bindings
  | .ok _, undeclared => .error undeclared
  | .error faults, undeclared => .error (faults ++ undeclared)

end Schema

-- ============================================================ records

/-- Why values make no record: what is wrong with them, or a field that the record
finds where it calls an operation of its own. -/
inductive RecordError where
  | details (details : List Detail)
  | uncallable (field found : String)
  deriving Repr

namespace Schema

/-- Make a record of the entries of a mapping. A record is made by one operation, which
binds the values, and ends with another one; a field in the place of the first is no
more than declared, one in the place of the second is bound before it is called. -/
def record (s : Schema) (entries : List (Value × Value)) : Except RecordError Bindings :=
  if s.names.contains makerName then .error (.uncallable makerName "ellipsis")
  else
    match s.bindEntries entries with
    | .error details => .error (.details details)
    | .ok bindings =>
        match s.find? finisherName with
        | some spec => .error (.uncallable finisherName spec.kind.boundName)
        | none => .ok bindings

/-- Bind a value, which has to be a mapping. -/
def bind (s : Schema) : Value → Except RecordError Bindings
  | .map entries => s.record entries
  | _ => .error (.details [⟨[], .notRecord "RuleFields"⟩])

-- ============================================================ reading

/-- What is read under a name in a record. -/
inductive Reading where
  | bound (b : Bound)
  /-- What the record itself keeps under the name. -/
  | kept (v : Value)
  /-- Nothing, since one underscore keeps the name out of reach. -/
  | hidden
  /-- Nothing of use, since two underscores keep the name for the record. -/
  | internal

namespace Reading

/-- The document form of what is read; nothing is read as null. -/
def toValue : Reading → Value
  | bound b => b.toValue
  | kept v => v
  | hidden | internal => .null

/-- How messages show what is read. -/
def literal : Reading → String
  | bound b => b.literal
  | r => r.toValue.literal

/-- Whether what is read is a set, which has no JSON text. -/
def isSet : Reading → Bool
  | kept (.set _) => true
  | _ => false

end Reading

/-- The rules of records: they are not changed, and take no further keys. -/
def recordRules : Value := .object [("frozen", .bool true), ("extra", .str "forbid")]

/-- The name under which a record keeps the further keys that it took, of which
there are none. -/
def extraName : String := "model_extra"

/-- The name under which a record keeps which fields were bound. -/
def boundName : String := "model_fields_set"

/-- Read what the record of some bindings holds under a name. -/
def read (bindings : Bindings) (name : String) : Reading :=
  if name = rulesName then .kept recordRules
  else if name.startsWith "__" then .internal
  else if name = extraName then .kept .null
  else if name = boundName then .kept (.set (bindings.names.map .str))
  else
    match bindings.at? name with
    | some b => .bound b
    | none => .hidden

end Schema

end Verdict
