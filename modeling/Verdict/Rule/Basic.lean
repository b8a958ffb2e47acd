/-
Rules: named predicates with fields that a policy fills in and parameters
that an evaluation fills in. An instance is a rule with its fields bound.
-/
import Verdict.Field.Schema
import Verdict.Rule.Signature

namespace Verdict

/-- What a rule does: from its name, its bound fields and a context, its
answer or why there is none, and the context it leaves behind. -/
abbrev Body := String → Bindings → Context → Except Fault Input × Context

/-- A rule. -/
structure Rule where
  name : String
  schema : Schema
  params : List Param
  body : Body

instance : Inhabited Rule :=
  ⟨⟨"", .empty, [], fun _ _ ctx => (.ok (.value .null), ctx)⟩⟩

namespace Rule

/-- The signature of a rule. -/
def signature (r : Rule) : Signature := signatureOf r.params

/-- The rule as tools read it. -/
def toValue (r : Rule) : Value :=
  .object [("name", .str r.name), ("fields", r.schema.toValue)]

end Rule

-- ========================================================== instances

/-- A rule with values bound to its fields. -/
structure Instance where
  rule : Rule
  bindings : Bindings

namespace Instance

/-- What is read under the name of a field. Records keep some names for
themselves, so this need not be what was bound to the field. -/
def read (i : Instance) (spec : FieldSpec) : Schema.Reading := Schema.read i.bindings spec.name

/-- The fields by name, each with what is read under the name. -/
def readings (i : Instance) : Table Schema.Reading :=
  i.rule.schema.specs.map fun spec => (spec.name, i.read spec)

/-- The document form of one field. -/
def fieldValue (i : Instance) (spec : FieldSpec) : Value :=
  .object [("name", .str spec.name), ("type", .str spec.kind.tag),
    ("value", (i.read spec).toValue)]

/-- The instance as a rule node of a document. -/
def toValue (i : Instance) : Value :=
  .object [("type", .str "rule"), ("rule", .str i.rule.name),
    ("fields", .list (i.rule.schema.specs.map i.fieldValue))]

/-- How messages show an instance. -/
def literal (i : Instance) : String :=
  i.rule.name ++ "("
    ++ ", ".intercalate (i.readings.map fun r => r.1 ++ "=" ++ r.2.literal) ++ ")"

/-- Whether two instances are of rules of one name and have the same
bindings. -/
def same (i j : Instance) : Bool :=
  i.rule.name = j.rule.name && i.bindings = j.bindings

/-- Whether the inputs of a context are those that the rule takes. -/
def fits (i : Instance) (ctx : Context) : Bool := takes i.rule.params ctx

/-- Evaluate an instance in a context: the inputs are matched with the
parameters before the rule does anything. -/
def evaluate (i : Instance) (ctx : Context) : Except Fault Input × Context :=
  if i.fits ctx then i.rule.body i.rule.name i.bindings ctx
  else (.error .arguments, ctx)

end Instance

end Verdict
