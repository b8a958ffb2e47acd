/-
Defects: what can be wrong with a policy document, from its text to the
references between its expressions. Every defect keeps what its message
shows, and every defect has a name by which it is reported. One of them is
no fault of a document, and no mode expects it: a rule with a field in the
place of an operation that its records call.
-/
import Verdict.Field.Detail
import Verdict.Json.Failure

namespace Verdict

/-- The two connectives that join any number of expressions. -/
inductive Connective where
  | all
  | any
  deriving Repr, DecidableEq

/-- The key of a connective in a document. -/
def Connective.key : Connective → String
  | .all => "And"
  | .any => "Or"

/-- Why a text is no document. -/
inductive Undecodable where
  | json (reason : Json.Reason) (place : Text.Position)
  | yaml
  /-- A value whose text its kind has no reading for. -/
  | badValue
  | tooDeep
  deriving Repr, DecidableEq

/-- The words for an undecodable text. Of a cause other than malformed JSON they give the
name alone, without what it says of itself. -/
def Undecodable.words : Undecodable → String
  | .json reason place => "JSONDecodeError: " ++ Json.malformedMessage reason place
  | .yaml => "YAMLError"
  | .badValue => "ValueError"
  | .tooDeep => "RecursionError"

/-- What is wrong with a policy document. -/
inductive Defect where
  -- the text
  | undecodable (cause : Undecodable)
  | notADocument (kind : String)
  | unreadable (path cause : String)
  | ruleText (reason : Json.Reason) (place : Text.Position)
  -- the document
  | notAMapping
  | noRules
  | noExpressions
  | rulesNotNames
  | expressionsNotMapping
  | badExpressionName (name : Value)
  | rulesetMismatch (found : Value) (expected : String)
  -- the shape of expressions
  | tooDeep (limit : Int)
  | referencesTooDeep (name : String) (depth : Nat) (limit : Int)
  | unknownPattern (raw : Value)
  | ambiguous (found : List String)
  | childrenNotList (connective : Connective) (found : Value)
  | emptyNot (raw : Value)
  | listUnderNot (found : Value)
  | noRuleName (raw : Value)
  | badTag (raw : Value)
  | badPayload (found : Value)
  | emptyConnective (connective : Connective) (shown : Value)
  | singleChild (connective : Connective) (shown : Value)
  | redundantNesting (outer inner : Value)
  -- names
  | ruleUndefined (rule ruleset : String) (known : List String)
  | ruleUnregistered (rule ruleset : String) (known : List String)
  | ruleUndeclared (rule : String) (declared : List String)
  | unknownExpression (name : String) (declared : List String)
  -- fields
  | fieldsNotList (rule : String) (found : Value)
  | malformedField (rule : String) (entry : Value)
  | invalidField (rule : String) (entry expected : Value)
  | duplicateField (rule field : String)
  | undeclaredField (rule : String) (field : Value) (declared : List String)
  | missingFields (rule : String) (missing : List String)
  | fieldValues (rule : String) (details : List Detail)
  | noFieldList (rule : String)
  | malformedEntry (entry : Value)
  | notAnOption (field : String) (value : Value) (options : List String)
  -- references
  | cycle (path : List String)
  -- records
  /-- A record calls an operation of its own, and finds a field in its place. -/
  | uncallable (field found : String)
  deriving Repr

namespace Defect

-- ============================================================== names

/-- The name a defect is reported by. -/
def name : Defect → String
  | undecodable _ | notADocument _ | unreadable .. | ruleText .. =>
      "DocumentParseError"
  | notAMapping | noRules | noExpressions | rulesNotNames
  | expressionsNotMapping | badExpressionName _ | childrenNotList ..
  | listUnderNot _ | noRuleName _ | badTag _ | badPayload _ =>
      "StructuralError"
  | rulesetMismatch .. => "RulesetMismatchError"
  | tooDeep _ | referencesTooDeep .. => "NestingDepthError"
  | unknownPattern _ => "UnknownNodeError"
  | ambiguous _ => "AmbiguousNodeError"
  | emptyNot _ | emptyConnective .. => "EmptyConnectiveError"
  | singleChild .. => "SingleChildConnectiveError"
  | redundantNesting .. => "RedundantNestingError"
  | ruleUndefined .. | ruleUnregistered .. | ruleUndeclared .. =>
      "UnknownRuleError"
  | unknownExpression .. => "UnknownExpressionError"
  | fieldsNotList .. | malformedField .. | invalidField .. | duplicateField ..
  | undeclaredField .. | missingFields .. | fieldValues .. | noFieldList _
  | malformedEntry _ => "FieldError"
  | notAnOption .. => "EnumValueError"
  | cycle _ => "CycleError"
  | uncallable .. => "TypeError"

-- ============================================================= values

/-- The values that the message of a defect shows. -/
def shown : Defect → List Value
  | badExpressionName name => [name]
  | rulesetMismatch found _ => [found]
  | unknownPattern raw | emptyNot raw | noRuleName raw | badTag raw => [raw]
  | childrenNotList _ found | listUnderNot found | badPayload found => [found]
  | emptyConnective _ shown | singleChild _ shown => [shown]
  | redundantNesting outer inner => [outer, inner]
  | fieldsNotList _ found => [found]
  | malformedField _ entry | malformedEntry entry => [entry]
  | invalidField _ entry expected => [entry, expected]
  | undeclaredField _ field _ => [field]
  | notAnOption _ value _ => [value]
  | _ => []

/-- Whether a defect can be put into words: one that shows a number of too
many digits cannot. -/
def isWritable (d : Defect) : Bool := d.shown.all Value.isWritable

-- =========================================================== messages

/-- The words of a defect. Of values that do not bind they give the heading alone: the
details under it are kept with the defect and are not put into words here. -/
def message : Defect → String
  | undecodable cause => "Failed to parse policy document: " ++ cause.words
  | notADocument kind => s!"Policy document must be a mapping, found {kind}"
  | unreadable path cause => s!"Failed to load {path}: {cause}"
  | ruleText reason place =>
      "Invalid rule JSON: " ++ Json.malformedMessage reason place
  | notAMapping => "Policy document must be a mapping"
  | noRules => "No rules defined in policy document"
  | noExpressions => "No expressions defined in policy document"
  | rulesNotNames => "`rules` must be a list of rule names"
  | expressionsNotMapping => "`expressions` must map names to expressions"
  | badExpressionName name => s!"Invalid expression name: {name.literal}"
  | rulesetMismatch found expected =>
      "Provided ruleset does not match the implementation: "
        ++ s!"{found.plain} != {expected}"
  | tooDeep limit =>
      s!"Expression nesting exceeds the maximum depth of {limit}"
  | referencesTooDeep name depth limit =>
      s!"Expression {name} nests {depth} levels deep through expression "
        ++ s!"references, exceeding the maximum depth of {limit}"
  | unknownPattern raw => s!"Unknown expression pattern: {raw.literal}"
  | ambiguous found =>
      "Ambiguous expression, each expression may only contain one of "
        ++ "[And, Or, Not, rule, expr], found: ["
        ++ ", ".intercalate found ++ "]"
  | childrenNotList connective found =>
      s!"`{connective.key}` expects a list of expressions, "
        ++ s!"found: {found.literal}"
  | emptyNot raw => s!"Redundant empty Not expression found {raw.literal}"
  | listUnderNot found =>
      s!"`Not` expects a single expression, found a list: {found.literal}"
  | noRuleName raw => s!"Rule node without a rule name: {raw.literal}"
  | badTag raw =>
      s!"Expression reference with invalid type tag: {raw.literal}"
  | badPayload found =>
      "Expression reference expects a name or a nested expression, "
        ++ s!"found: {found.literal}"
  | emptyConnective connective shown =>
      s!"Redundant empty {connective.key} expression found {shown.literal}"
  | singleChild connective shown =>
      s!"`{connective.key}` expression has only one component, please remove "
        ++ s!"the `{connective.key}` operand: {shown.literal}"
  | redundantNesting outer inner =>
      "Redundant expression nesting, please replace the outer expression "
        ++ s!"with inner: `{outer.literal}` -> `{inner.literal}`"
  | ruleUndefined rule ruleset known =>
      s!"Rule {rule} is undefined for {ruleset} -> {quotedList known}"
  | ruleUnregistered rule ruleset known =>
      s!"Unknown rule reference {rule} for {ruleset}: {quotedList known}"
  | ruleUndeclared rule declared =>
      s!"Rule {rule} is not declared in the document rules: "
        ++ quotedList declared
  | unknownExpression name declared =>
      s!"Unknown reference to expression {name}. Expected any of: "
        ++ quotedList declared
  | fieldsNotList rule found =>
      s!"Rule node {rule} expects a list of fields, found: {found.literal}"
  | malformedField rule entry =>
      s!"Malformed field {entry.literal} for rule {rule}, "
        ++ "expected \x7bname, type, value\x7d"
  | invalidField rule entry expected =>
      s!"Invalid field {entry.literal} for rule {rule}, "
        ++ s!"expected any of {expected.literal}"
  | duplicateField rule field => s!"Duplicate field `{field}` for rule {rule}"
  | undeclaredField rule field declared =>
      s!"Invalid field `{field.plain}` for rule {rule}, "
        ++ s!"expected any of {quotedList declared}"
  | missingFields rule missing =>
      s!"Missing fields {quotedList missing} for rule {rule}"
  | fieldValues rule details =>
      s!"Invalid field values for rule {rule}: "
        ++ detailCount details "RuleFields"
  | noFieldList rule =>
      s!"Rule document for {rule} must contain a `fields` list"
  | malformedEntry entry => s!"Malformed field entry: {entry.literal}"
  | notAnOption field value options =>
      s!"Unknown enum value for field `{field}`, expected one of "
        ++ s!"{quotedList options} but got `{value.plain}`"
  | cycle path =>
      "Found cyclic reference to expression " ++ path.getLastD "" ++ ": "
        ++ " -> ".intercalate path
  | uncallable _ found => s!"{Text.quoted found} object is not callable"

end Defect

end Verdict
