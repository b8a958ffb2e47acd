/-
Declaration errors: what can be wrong with the rules and rulesets that a
program declares, before any policy is read.
-/
import Verdict.Value.Literal

namespace Verdict

/-- Why no kind of records has a field of a name: the name is that of an operation on
records, or of a part of the kind itself. A part is not taken beside the others that are
given, or the field stands in its place and is of another kind, is not as long, or lacks
what is looked for in it. -/
inductive Reserve where
  | operation
  | notTaken
  | otherKind
  | otherLength
  | lacking
  deriving Repr, DecidableEq

/-- What is wrong with a declaration. -/
inductive DeclarationError where
  | noRulesetName
  | rulesetSealed (ruleset : String)
  | notARule (shown : String)
  | notEvaluable (rule : String)
  | unknownType (rule type : String)
  | nothingToSeal (ruleset : String)
  | rulesetOpen (ruleset : String)
  | noOptions (field : Value)
  | optionsNotText (field : Value) (found : List Value)
  | repeatedFields (names : List String)
  | reservedField (field : String) (reserve : Reserve)
  | duplicateRule (rule ruleset : String)
  | signatureMismatch (ruleset : String) (signatures : List String)
  | unknownRuleset (name : String) (known : List String)
  deriving Repr

namespace DeclarationError

/-- The name an error is reported by. -/
def name : DeclarationError → String
  | duplicateRule .. => "DuplicateRuleError"
  | signatureMismatch .. => "SignatureMismatchError"
  | unknownRuleset .. => "UnknownRulesetError"
  | reservedField .. => "ReservedFieldError"
  | _ => "ConfigurationError"

/-- The words of an error. -/
def message : DeclarationError → String
  | noRulesetName => "Ruleset name must not be empty"
  | rulesetSealed ruleset =>
      s!"Cannot register rules into sealed ruleset {ruleset}"
  | notARule shown => s!"{shown} is not a Rule subclass"
  | notEvaluable rule => s!"Rule {rule} does not implement evaluate"
  | unknownType rule type =>
      s!"Cannot resolve evaluate annotations of rule {rule}: "
        ++ s!"name '{type}' is not defined"
  | nothingToSeal ruleset => s!"Ruleset {ruleset} has no rules to seal"
  | rulesetOpen ruleset =>
      s!"Ruleset {ruleset} must be sealed before building policies"
  | noOptions field => s!"Enum field `{field.plain}` declares no options"
  | optionsNotText field found =>
      s!"Enum field `{field.plain}` must have string values, found: "
        ++ (Value.list found).literal
  | repeatedFields names =>
      s!"Duplicate field names in schema: {quotedList names}"
  | reservedField field .operation =>
      s!"Field `{field}` has the name of an operation of records"
  | reservedField field _ => s!"Field `{field}` has the name of a part of records"
  | duplicateRule rule ruleset => s!"Duplicate rule: {rule} in {ruleset}"
  | signatureMismatch ruleset signatures =>
      s!"Rules do not have uniform parameter signatures in ruleset "
        ++ s!"`{ruleset}`: {quotedList signatures}"
  | unknownRuleset name known =>
      s!"Unknown ruleset {Text.quoted name}, expected any of {quotedList known}"

end DeclarationError

end Verdict
