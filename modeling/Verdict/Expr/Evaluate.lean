/-
Evaluation: the truth value of an expression in a context. Expressions
are evaluated from left to right and no further than the outcome needs.
A run carries the context from rule to rule and records every rule that
is given it; what it has recorded stands even where it fails.
-/
import Verdict.Error.Evaluation
import Verdict.Expr.Bind

namespace Verdict

/-- The state of an evaluation: the context, and the rules that were given
it so far, newest first. -/
structure Run where
  context : Context
  calls : List Instance := []

/-- A part of an evaluation. -/
abbrev Eval (α : Type) := ExceptT EvaluationError (StateM Run) α

/-- What the names in an expression refer to. -/
abbrev Scope := String → Except EvaluationError (Expr BoundRef)

namespace BoundRef

/-- Evaluate a leaf: its rule has to be bound. -/
def evaluate (r : BoundRef) : Eval Bool := fun run =>
  match r.bound with
  | none => (.error (.unbound r.ref.rule), run)
  | some i =>
      let calls := if i.fits run.context then i :: run.calls else run.calls
      match i.evaluate run.context with
      | (.ok answer, context) => (.ok answer.truthy, ⟨context, calls⟩)
      | (.error f, context) => (.error (.fault f), ⟨context, calls⟩)

end BoundRef

namespace Expr

/-- Whether all parts are true; the first that is not ends the test. -/
def allTrue {α : Type} (test : α → Eval Bool) : List α → Eval Bool
  | [] => pure true
  | a :: rest => do
      if ← test a then allTrue test rest else pure false

/-- Whether one part is true; the first that is ends the test. -/
def anyTrue {α : Type} (test : α → Eval Bool) : List α → Eval Bool
  | [] => pure false
  | a :: rest => do
      if ← test a then pure true else anyTrue test rest

/-- Evaluate an expression, with no more than the given number of nodes
inside one another. -/
def evaluate (scope : Scope) : Nat → Expr BoundRef → Eval Bool
  | 0, _ => throw .endless
  | _ + 1, .rule r => r.evaluate
  | levels + 1, .join .all children => allTrue (evaluate scope levels) children
  | levels + 1, .join .any children => anyTrue (evaluate scope levels) children
  | levels + 1, .not child => do
      let b ← evaluate scope levels child
      pure !b
  | levels + 1, .named _ name =>
      match scope name with
      | .ok e => evaluate scope levels e
      | .error err => throw err
  | levels + 1, .inline _ child => evaluate scope levels child

end Expr

end Verdict
