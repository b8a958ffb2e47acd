/-
Drafts: rules as they are declared. A draft becomes a rule when it can be
evaluated and the types of its parameters are known.
-/
import Verdict.Rule.Basic

namespace Verdict

/-- A parameter as declared: its type is known, or only named. -/
structure DraftParam where
  name : String
  type : Except String InputType
  kind : ParamKind

/-- A rule as declared. -/
structure Draft where
  /-- The name of the declaration, which may differ from the rule's. -/
  title : String
  name : String
  schema : Schema
  /-- The parameters and what the rule does, if it can be evaluated. -/
  action : Option (List DraftParam × Body)

/-- Something offered for a rule: a rule, a draft of one, or what is
neither, as messages show it. -/
inductive Offer where
  | rule (r : Rule)
  | draft (d : Draft)
  | other (shown : String)

/-- The parameters, or the first type that is not known. -/
def DraftParam.settle : List DraftParam → Except String (List Param)
  | [] => .ok []
  | p :: rest =>
      match p.type with
      | .error type => .error type
      | .ok type => (settle rest).map (⟨p.name, type, p.kind⟩ :: ·)

/-- The rule that a draft declares. -/
def Draft.toRule (d : Draft) : Except DeclarationError Rule :=
  match d.action with
  | none => .error (.notEvaluable d.title)
  | some (params, body) =>
      match DraftParam.settle params with
      | .error type => .error (.unknownType d.name type)
      | .ok params => .ok ⟨d.name, d.schema, params, body⟩

/-- The rule that is offered. -/
def Offer.toRule : Offer → Except DeclarationError Rule
  | .rule r => .ok r
  | .draft d => d.toRule
  | .other shown => .error (.notARule shown)

end Verdict
