/-
Binding expressions: replacing every leaf of an expression by what a
binder makes of it. The leaves are bound in order, and the first failure
is the outcome.
-/
import Verdict.Expr.Basic
import Verdict.Rule.Binding

namespace Verdict

namespace Expr

variable {ρ σ ε : Type}

mutual

/-- Bind every leaf of an expression. -/
def bindLeaves (binder : ρ → Except ε σ) : Expr ρ → Except ε (Expr σ)
  | .join c children => (bindAll binder children).map (.join c)
  | .not child => (bindLeaves binder child).map .not
  | .rule r => (binder r).map .rule
  | .named tag name => .ok (.named tag name)
  | .inline tag child => (bindLeaves binder child).map (.inline tag)

/-- Bind every leaf of expressions. -/
def bindAll (binder : ρ → Except ε σ) : List (Expr ρ) → Except ε (List (Expr σ))
  | [] => .ok []
  | e :: rest => do
      let e ← bindLeaves binder e
      let rest ← bindAll binder rest
      pure (e :: rest)

end

end Expr

/-- A leaf of an expression that may be evaluated: the leaf of the
document, and the instance of the rule once it is bound. -/
structure BoundRef where
  ref : RuleRef
  bound : Option Instance

/-- The document form of an expression with bound leaves. -/
def Expr.toDocument (e : Expr BoundRef) : Value :=
  e.toValueWith fun r => r.ref.toValue

/-- The leaf of a document, unbound. -/
def RuleRef.unbound (r : RuleRef) : BoundRef := ⟨r, none⟩

end Verdict
