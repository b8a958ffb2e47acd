/-
Binding: making an instance of a rule from field values, from a document
that lists them, and from the text of such a document.
-/
import Verdict.Json.Reader
import Verdict.Json.Writer
import Verdict.Rule.Basic

namespace Verdict.Rule

-- ======================================================= field values

/-- The first key that names no field. -/
def undeclaredKey? (r : Rule) : List (Value × Value) → Option Value
  | [] => none
  | (key, _) :: rest =>
      match key with
      | .str name => if r.schema.names.contains name then undeclaredKey? r rest else some key
      | _ => some key

/-- The fields without an entry. -/
def missingNames (r : Rule) (entries : List (Value × Value)) : List String :=
  r.schema.names.filter fun name => (Value.lookup entries name).isNone

/-- The defect of the first choice whose entry is none of its options. -/
def optionDefect? (entries : List (Value × Value)) : List FieldSpec → Option Defect
  | [] => none
  | spec :: rest =>
      match (Value.lookup entries spec.name).bind fun v => spec.resolve (.value v) with
      | some (.error d) => some d
      | _ => optionDefect? entries rest

/-- The defect of values that make no record. -/
def recordDefect (r : Rule) : RecordError → Defect
  | .details details => .fieldValues r.name details
  | .uncallable field found => .uncallable field found

/-- Bind field values to a rule. Keys are compared with the fields before
values are, and choices are resolved before the other kinds are checked. -/
def bindEntries (r : Rule) (entries : List (Value × Value)) : Except Defect Instance :=
  match r.undeclaredKey? entries with
  | some key => .error (.undeclaredField r.name key r.schema.names)
  | none =>
      let missing := r.missingNames entries
      if !missing.isEmpty then .error (.missingFields r.name missing)
      else
        match optionDefect? entries r.schema.specs with
        | some d => .error d
        | none =>
            match r.schema.record entries with
            | .ok bindings => .ok ⟨r, bindings⟩
            | .error e => .error (r.recordDefect e)

/-- Bind values by field name to a rule. -/
def bindFields (r : Rule) (values : Table Value) : Except Defect Instance :=
  r.bindEntries (values.map fun e => (.str e.1, e.2))

-- ========================================================== documents

/-- Why a document gives no instance: a defect of it, a field of the rule that
records call, a number that is too long to read or a text nested too deep, or a
field name of a kind that cannot be a name. -/
inductive ReadError where
  | defect (d : Defect)
  | uncallable (field found : String)
  | longNumber
  | tooDeep
  | notAName
  deriving Repr

/-- A defect as an error. -/
def ReadError.ofDefect : Defect → ReadError
  | .uncallable field found => .uncallable field found
  | d => .defect d

/-- Check that the field an entry names, if there is one, has the type the
entry gives. -/
def checkEntry (r : Rule) (entry : Value) : Except ReadError Unit :=
  if entry.isMap then
    match (entry.get? "name").getD .null with
    | .str name =>
        match r.schema.find? name with
        | some spec =>
            if (entry.get? "type").bind Value.text? = some spec.kind.tag then .ok ()
            else .error (.defect (.invalidField r.name entry.unrolled r.schema.toValue))
        | none => .ok ()
    | name => if name.isKey then .ok () else .error .notAName
  else .ok ()

/-- The field values that entries list; a later entry of a name takes the
place of an earlier one. -/
def entryValues (read : List (Value × Value)) :
    List Value → Except Defect (List (Value × Value))
  | [] => .ok read
  | entry :: rest =>
      match entry.get? "name" with
      | some name =>
          entryValues (Value.putEntry read name ((entry.get? "value").getD .null)) rest
      | none => .error (.malformedEntry entry)

/-- The instance that a document with a list of fields describes. -/
def readDocument (r : Rule) (document : Value) : Except ReadError Instance :=
  match (document.get? "fields").map Value.unrolled with
  | some (.list entries) => do
      entries.forM (checkEntry r)
      let values ← (entryValues [] entries).mapError .defect
      (r.bindEntries values).mapError .ofDefect
  | _ => .error (.defect (.noFieldList r.name))

/-- The instance that the JSON text of a document describes. -/
def readJson (r : Rule) (text : String) : Except ReadError Instance :=
  match Json.read text with
  | .ok document => r.readDocument document
  | .error (.malformed reason place) => .error (.defect (.ruleText reason place))
  | .error .longNumber => .error .longNumber
  | .error .tooDeep => .error .tooDeep

end Verdict.Rule

namespace Verdict.Instance

/-- The text of an instance, if what is read of its fields has one. -/
def toJson? (i : Instance) : Option String :=
  if i.readings.any fun r => r.2.isSet then none else some (Json.pretty i.toValue)

end Verdict.Instance
