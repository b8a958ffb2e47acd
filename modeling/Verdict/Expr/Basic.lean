/-
Expressions: trees of connectives over leaves of any kind and references
to other expressions by name. The leaves of a parsed document name rules;
those of a policy that can be evaluated hold bound rules besides.
-/
import Verdict.Error.Defect

namespace Verdict

/-- An expression with leaves `ρ`. A reference keeps the tag of its node;
what it refers to is a name, or stands in its place. -/
inductive Expr (ρ : Type) where
  | join (connective : Connective) (children : List (Expr ρ))
  | not (child : Expr ρ)
  | rule (leaf : ρ)
  | named (tag name : String)
  | inline (tag : String) (child : Expr ρ)
  deriving Repr, BEq, Inhabited

/-- One entry of a rule node: the name, the type and the value of a field. -/
structure FieldEntry where
  name : String
  type : String
  value : Value
  deriving Repr, BEq, Inhabited

/-- A leaf of a document: the name of a rule and values of its fields. -/
structure RuleRef where
  rule : String
  fields : List FieldEntry
  deriving Repr, BEq, Inhabited

/-- A named expression. -/
abbrev Expressions (ρ : Type) := Table (Expr ρ)

namespace FieldEntry

/-- The document form of an entry. -/
def toValue (e : FieldEntry) : Value :=
  .object [("name", .str e.name), ("type", .str e.type), ("value", e.value)]

end FieldEntry

namespace RuleRef

/-- The values of the fields by name; a later entry of a name takes the
place of an earlier one. -/
def values (r : RuleRef) : Table Value :=
  Table.ofEntries (r.fields.map fun e => (e.name, e.value))

/-- The document form of a leaf. -/
def toValue (r : RuleRef) : Value :=
  .object [("type", .str "rule"), ("rule", .str r.rule),
    ("fields", .list (r.fields.map FieldEntry.toValue))]

end RuleRef

namespace Expr

variable {ρ σ : Type}

-- ==================================================== document form

mutual

/-- The document form of an expression, from that of its leaves. -/
def toValueWith (leaf : ρ → Value) : Expr ρ → Value
  | .join c children => .object [(c.key, .list (toValuesWith leaf children))]
  | .not child => .object [("Not", toValueWith leaf child)]
  | .rule r => leaf r
  | .named tag name => .object [("type", .str tag), ("expr", .str name)]
  | .inline tag child =>
      .object [("type", .str tag), ("expr", toValueWith leaf child)]

/-- The document forms of expressions. -/
def toValuesWith (leaf : ρ → Value) : List (Expr ρ) → List Value
  | [] => []
  | e :: rest => toValueWith leaf e :: toValuesWith leaf rest

end

/-- The document form of an expression of a document. -/
def toValue (e : Expr RuleRef) : Value := e.toValueWith RuleRef.toValue

-- ======================================================== children

/-- The expressions directly under an expression. -/
def children : Expr ρ → List (Expr ρ)
  | .join _ children => children
  | .not child => [child]
  | .rule _ => []
  | .named _ _ => []
  | .inline _ child => [child]

/-- Whether the expression is a reference by name. -/
def isNamed : Expr ρ → Bool
  | .named _ _ => true
  | _ => false

mutual

/-- The number of nodes of an expression. -/
def size : Expr ρ → Nat
  | .join _ children => 1 + sizes children
  | .not child => 1 + size child
  | .rule _ => 1
  | .named _ _ => 1
  | .inline _ child => 1 + size child

/-- The number of nodes of expressions. -/
def sizes : List (Expr ρ) → Nat
  | [] => 0
  | e :: rest => size e + sizes rest

end

end Expr

end Verdict
