/-
The reference graph: the declared names, each with the names that its
expression refers to. A search from every name in turn puts the names
into an order in which everything referred to comes first, or finds a
path that comes back to itself.
-/
import Verdict.Expr.Walk

namespace Verdict

/-- The names that each declared name refers to. -/
abbrev ReferenceGraph := Table (List String)

namespace ReferenceGraph

/-- The graph of named expressions. -/
def ofExpressions {ρ : Type} (es : Expressions ρ) : ReferenceGraph :=
  es.map fun e => (e.1, e.2.references)

/-- The names that a name refers to; one that is not declared refers to
none. -/
def references (g : ReferenceGraph) (name : String) : List String :=
  (g.at? name).getD []

/-- Search from a name. `path` leads to the name and ends with it, `done`
holds the names whose references have all been followed. The search goes
no deeper than there are names off the path, which `room` counts. The
outcome is `done` with the name and all it leads to added, or a path that
comes back to itself. -/
def visit (g : ReferenceGraph) : Nat → List String → String → List String →
    Except (List String) (List String)
  | 0, _, name, done => .ok (done ++ [name])
  | room + 1, path, name, done => do
      let done ← (g.references name).foldlM
        (fun done ref =>
          if path.contains ref then .error (path ++ [ref])
          else if done.contains ref || !g.has ref then .ok done
          else visit g room (path ++ [ref]) ref done)
        done
      pure (done ++ [name])

/-- The declared names with what they refer to before them, or the first
path found that comes back to itself. -/
def order (g : ReferenceGraph) : Except (List String) (List String) :=
  g.names.foldlM
    (fun done name =>
      if done.contains name then .ok done
      else visit g (g.length + 1) [name] name done)
    []

end ReferenceGraph

/-- The order in which named expressions can be taken one after another,
or the defect of a cycle. -/
def referenceOrder {ρ : Type} (es : Expressions ρ) : Except Defect (List String) :=
  (ReferenceGraph.ofExpressions es).order.mapError .cycle

end Verdict
