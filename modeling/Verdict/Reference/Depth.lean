/-
Depths: how many nodes stand inside one another in an expression when
every reference is followed. A reference by name is a node of its own, and
the expression that it names stands under it. An expression is swept with
the nodes that are still to come on a stack, each with its level.
-/
import Verdict.Reference.Graph

namespace Verdict

namespace Expr

variable {ρ : Type}

/-- How many levels a reference adds to its own: as many as the expression has that it
names, given the depths of those expressions. -/
def levelsNamed (depths : Table Nat) (e : Expr ρ) : Nat :=
  (e.reference?.bind depths.at?).getD 0

/-- The greatest level that pending nodes and the nodes under them reach, or `deepest` if
that is greater. The node on top of the stack is next, and its children take its place,
the last of them on top. -/
def sweep (depths : Table Nat) (deepest : Nat) : List (Expr ρ × Nat) → Nat
  | [] => deepest
  | (e, level) :: pending =>
      let reached := level + levelsNamed depths e
      sweep depths (max deepest reached)
        ((e.children.reverse.map fun child => (child, reached + 1)) ++ pending)
termination_by pending => sizes (pending.map (·.1))
decreasing_by
  simp only [List.map_append, List.map_map, Function.comp_def, List.map_id', sizes_append,
    List.map_cons, sizes, sizes_reverse, size_eq_children e]
  omega

/-- The depth of an expression, given the depths of the expressions it
refers to. -/
def depthIn (depths : Table Nat) (e : Expr ρ) : Nat := sweep depths 0 [(e, 1)]

end Expr

/-- The depths of the named expressions in an order in which what is
referred to comes first. A name in the order that is not declared is the
failure. -/
def depthsAlong {ρ : Type} (es : Expressions ρ) :
    List String → Table Nat → Except String (Table Nat)
  | [], depths => .ok depths
  | name :: rest, depths =>
      match es.at? name with
      | none => .error name
      | some e => depthsAlong es rest (depths.put name (e.depthIn depths))

end Verdict
