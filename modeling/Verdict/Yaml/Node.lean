/-
Nodes: what a YAML text describes. A node has a kind and a content, which
need not fit each other. Nodes are told by number, so that an alias is the
node it stands for, and a node may be a part of itself.
-/
import Verdict.Yaml.Kind

namespace Verdict.Yaml

/-- What a node is made of. -/
inductive Content where
  | scalar (text : List Char)
  | sequence (items : List Nat)
  | mapping (entries : List (Nat × Nat))
  deriving Repr

/-- A node of a text. -/
structure Node where
  kind : Kind
  content : Content
  deriving Repr

/-- The node where none is written. -/
def Node.empty : Node := ⟨.null, .scalar []⟩

instance : Inhabited Node := ⟨.empty⟩

/-- The nodes of a text by number, and their numbers in the order in which
they end: every node after its parts, aliases of the nodes around it
apart. -/
structure Graph where
  nodes : Array Node := #[]
  ended : Array Nat := #[]
  deriving Repr, Inhabited

namespace Graph

/-- The graph with a node that begins; its number is the next one. -/
def opening (g : Graph) (kind : Kind) : Graph :=
  { g with nodes := g.nodes.push ⟨kind, .scalar []⟩ }

/-- The graph in which a node has ended with a content. -/
def closing (g : Graph) (n : Nat) (content : Content) : Graph :=
  { nodes := g.nodes.modify n fun node => { node with content }
    ended := g.ended.push n }

end Graph

end Verdict.Yaml
