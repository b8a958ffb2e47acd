/-
Evaluation errors: why evaluating an expression has no outcome. All but
the faults of rules mean that the policy was not checked.
-/
import Verdict.Rule.Input

namespace Verdict

/-- Why an evaluation has no outcome. -/
inductive EvaluationError where
  | unbound (rule : String)
  | unknownExpression (name : String) (ruleset : Option String) (known : List String)
  /-- The expression leads back into itself. -/
  | endless
  | fault (f : Fault)
  deriving Repr, DecidableEq

namespace EvaluationError

/-- The words of an error, where it has some. -/
def message? : EvaluationError → Option String
  | unbound rule => some s!"Rule reference {rule} is not bound"
  | unknownExpression name ruleset known =>
      let within := ruleset.getD "None"
      some (s!"Unknown expression {Text.quoted name} in ruleset {within}, "
        ++ s!"expected any of {quotedList known}")
  | fault (.refused message) => some message
  | _ => none

end EvaluationError

end Verdict
