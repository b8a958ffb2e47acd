/-
Walks: the nodes of an expression in the order in which they stand, and
what is read off them. The walk keeps the nodes that are still to come on
a list, so that its depth does not depend on that of the expression.
-/
import Verdict.Expr.Basic
import Verdict.Text.Order

namespace Verdict.Expr

variable {ρ : Type}

-- ============================================================== sizes

@[simp] theorem sizes_append (xs ys : List (Expr ρ)) :
    sizes (xs ++ ys) = sizes xs + sizes ys := by
  induction xs with
  | nil => simp [sizes]
  | cons x xs ih => simp [sizes, ih, Nat.add_assoc]

@[simp] theorem sizes_reverse (xs : List (Expr ρ)) : sizes xs.reverse = sizes xs := by
  induction xs with
  | nil => rfl
  | cons x xs ih => simp [sizes, ih, Nat.add_comm]

/-- An expression is one node larger than what stands under it. -/
theorem size_eq_children (e : Expr ρ) : e.size = 1 + sizes e.children := by
  cases e <;> simp [size, children, sizes]

-- =============================================================== walks

/-- The nodes of the given expressions and of all that stands under them,
each before what is under it. -/
def walkAll : List (Expr ρ) → List (Expr ρ)
  | [] => []
  | e :: pending => e :: walkAll (e.children ++ pending)
termination_by pending => sizes pending
decreasing_by
  simp only [sizes_append, sizes, size_eq_children e]
  omega

/-- The nodes of an expression, itself first. -/
def walk (e : Expr ρ) : List (Expr ρ) := walkAll [e]

/-- The name that a node refers to. -/
def reference? : Expr ρ → Option String
  | .named _ name => some name
  | _ => none

/-- The names that an expression refers to, in the order in which they
first occur. -/
def references (e : Expr ρ) : List String :=
  Text.firsts (e.walk.filterMap reference?)

/-- The leaves of an expression in order. -/
def leaves (e : Expr ρ) : List ρ :=
  e.walk.filterMap fun
    | .rule r => some r
    | _ => none

/-- The name of a node's kind. -/
def kindName : Expr ρ → String
  | .join .all _ => "And"
  | .join .any _ => "Or"
  | .not _ => "Not"
  | .rule _ => "RuleRef"
  | .named _ _ => "ExprRef"
  | .inline _ _ => "ExprRef"

end Verdict.Expr
