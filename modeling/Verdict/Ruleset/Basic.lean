/-
Rulesets: named vocabularies of rules. Rules are registered into an open
ruleset; sealing it checks that all of them have one signature, and a
sealed ruleset takes no more rules.
-/
import Verdict.Log.Entry
import Verdict.Rule.Binding
import Verdict.Rule.Draft

namespace Verdict

/-- A ruleset. It is sealed once it has a signature. -/
structure Ruleset where
  name : String
  rules : Table Rule
  signature : Option Signature

namespace Ruleset

/-- The part of the program that logs registrations. -/
def logger : String := "rulecomposer.rules.registry"

/-- An open ruleset without rules; it has to have a name. -/
def create (name : String) : Except DeclarationError Ruleset :=
  if name.isEmpty then .error .noRulesetName else .ok ⟨name, [], none⟩

/-- Whether the ruleset is sealed. -/
def isSealed (s : Ruleset) : Bool := s.signature.isSome

/-- The names of the rules, in order of registration. -/
def ruleNames (s : Ruleset) : List String := s.rules.names

/-- The rule of a name. -/
def rule? (s : Ruleset) (name : String) : Option Rule := s.rules.at? name

/-- How messages show a ruleset. -/
def literal (s : Ruleset) : String :=
  let state := if s.isSealed then "sealed" else "open"
  s!"Ruleset({Text.quoted s.name}, rules={quotedList s.ruleNames}, {state})"

-- ======================================================= registration

/-- Register what is offered for a rule into an open ruleset: the ruleset
with the rule in it, and the rule. -/
def register (s : Ruleset) (offer : Offer) :
    Journal (Except DeclarationError (Ruleset × Rule)) :=
  if s.isSealed then pure (.error (.rulesetSealed s.name))
  else
    match offer.toRule with
    | .error e => pure (.error e)
    | .ok r =>
        if s.rules.has r.name then pure (.error (.duplicateRule r.name s.name))
        else do
          Journal.note Log.debug logger
            s!"Registered rule {r.name} in ruleset {s.name}"
          pure (.ok (⟨s.name, s.rules ++ [(r.name, r)], s.signature⟩, r))

-- ============================================================ sealing

/-- Add a rule to those of its signature. -/
def groupRule (signature : Signature) (name : String) :
    List (Signature × List String) → List (Signature × List String)
  | [] => [(signature, [name])]
  | (s, names) :: rest =>
      if s = signature then (s, names ++ [name]) :: rest
      else (s, names) :: groupRule signature name rest

/-- The rules by signature, in the order in which the signatures first
occur. -/
def groups (s : Ruleset) : List (Signature × List String) :=
  s.rules.foldl (fun groups r => groupRule r.2.signature r.1 groups) []

/-- Seal a ruleset: it has rules, and they have one signature. Sealing a
sealed ruleset changes nothing. -/
def close (s : Ruleset) : Journal (Except DeclarationError (Ruleset × Signature)) :=
  match s.signature with
  | some signature => pure (.ok (s, signature))
  | none =>
      match s.groups with
      | [] => pure (.error (.nothingToSeal s.name))
      | [(signature, _)] => do
          Journal.note Log.info logger
            (s!"Sealed ruleset {s.name} with {s.rules.length} rules "
              ++ signature.shown)
          pure (.ok (⟨s.name, s.rules, some signature⟩, signature))
      | groups =>
          pure (.error (.signatureMismatch s.name
            (groups.map fun g => s!"{g.1.shown} <- {quotedList g.2}")))

-- ====================================================== introspection

/-- The ruleset as tools read it: its rules, and the fields of each. -/
def toValue (s : Ruleset) : Value :=
  .object [("ruleset", .str s.name), ("rules", .texts s.ruleNames),
    ("rule_definition", .object (s.rules.map fun r => (r.1, r.2.schema.toValue)))]

/-- The text of that. -/
def toJson (s : Ruleset) : String := Json.pretty s.toValue

end Ruleset

end Verdict
