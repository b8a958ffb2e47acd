/-
Resolvers: policies that answer. A resolver evaluates its expressions by
name; one without rules or without expressions is inert and denies
everything.
-/
import Verdict.Expr.Evaluate
import Verdict.Log.Entry

namespace Verdict

/-- A policy ready for evaluation. -/
structure Resolver where
  ruleset : Option String
  rules : Table Rule
  expressions : Expressions BoundRef

namespace Resolver

/-- The part of the program that logs evaluations. -/
def logger : String := "rulecomposer.policy.resolver"

/-- The resolver that denies everything. -/
def inert (ruleset : Option String) : Resolver := ⟨ruleset, [], []⟩

/-- Whether the resolver denies everything. -/
def isInert (r : Resolver) : Bool := r.rules.isEmpty || r.expressions.isEmpty

/-- The names of the expressions, in order. -/
def names (r : Resolver) : List String := r.expressions.names

/-- The expression of a name. -/
def find (r : Resolver) : Scope := fun name =>
  match r.expressions.at? name with
  | some e => .ok e
  | none => .error (.unknownExpression name r.ruleset r.names)

/-- The number of nodes of all expressions. -/
def nodeCount (r : Resolver) : Nat := Expr.sizes (r.expressions.map (·.2))

/-- Evaluate an expression in the scope of the resolver. Where more nodes
stand inside one another than there are, one of them stands inside
itself. -/
def evaluateExpr (r : Resolver) (e : Expr BoundRef) (ctx : Context) :
    Except EvaluationError Bool × Run :=
  (e.evaluate r.find (e.size + r.nodeCount)).run ⟨ctx, []⟩

/-- Evaluate the expression of a name. -/
def run (r : Resolver) (name : String) (ctx : Context) :
    Except EvaluationError Bool × Run :=
  if r.isInert then (.ok false, ⟨ctx, []⟩)
  else
    match r.find name with
    | .ok e => r.evaluateExpr e ctx
    | .error err => (.error err, ⟨ctx, []⟩)

/-- Evaluate the expression of a name; an inert resolver warns that it
denies. -/
def evaluate (r : Resolver) (name : String) (ctx : Context) :
    Journal (Except EvaluationError Bool × Run) := do
  if r.isInert then
    let ruleset := r.ruleset.getD "None"
    Journal.note Log.warning logger
      (s!"Empty resolver for ruleset {ruleset}: policy validation likely failed, "
        ++ s!"denying {name}")
  pure (r.run name ctx)

/-- The resolver as a policy document. -/
def toValue (r : Resolver) : Value :=
  .object [("ruleset", .ofText? r.ruleset), ("rules", .texts r.rules.names),
    ("expressions", .object (r.expressions.map fun e => (e.1, e.2.toDocument)))]

end Resolver

end Verdict
