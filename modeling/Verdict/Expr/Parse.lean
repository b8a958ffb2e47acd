/-
Parsing: reading an expression from its document form. A node of a
document is of exactly one kind, told by its keys; nodes are nested no
deeper than a limit, counted from the root as one. A defect of a mapping
shows it written out, so that one that holds itself is shown to its first
repetition.
-/
import Verdict.Expr.Basic

namespace Verdict

/-- What tells the kind of a node. -/
inductive Discriminant where
  | connective (c : Connective)
  | not
  | rule
  | expr
  deriving Repr, DecidableEq

/-- The word for a discriminant. -/
def Discriminant.word : Discriminant → String
  | .connective c => c.key
  | .not => "Not"
  | .rule => "rule"
  | .expr => "expr"

namespace Expr

/-- The limit that holds where none is given. -/
def defaultDepth : Int := 64

/-- Whether a node is marked as a rule. -/
def isRuleNode (raw : Value) : Bool :=
  (raw.get? "type").bind Value.text? = some "rule"

/-- Whether a node has a discriminant. -/
def hasDiscriminant (raw : Value) : Discriminant → Bool
  | .connective c => raw.hasKey c.key
  | .not => raw.hasKey "Not"
  | .rule => isRuleNode raw
  | .expr => raw.hasKey "expr"

/-- The discriminants of a node, in a fixed order. -/
def discriminants (raw : Value) : List Discriminant :=
  [.connective .all, .connective .any, .not, .rule, .expr].filter (hasDiscriminant raw)

-- ============================================================= leaves

/-- Read one entry of a rule node. -/
def parseField (rule : String) (entry : Value) : Except Defect FieldEntry :=
  match entry.get? "name", entry.get? "type", entry.get? "value" with
  | some (.str name), some (.str type), some v => .ok ⟨name, type, v⟩
  | _, _, _ => .error (.malformedField rule entry)

/-- Read a rule node. -/
def parseRule (raw : Value) : Except Defect RuleRef :=
  match raw.get? "rule" with
  | some (.str name) =>
      if name.isEmpty then .error (.noRuleName raw.unrolled)
      else
        match raw.get? "fields" with
        | none => .ok ⟨name, []⟩
        | some v =>
            match v.unrolled with
            | .list entries => (entries.mapM (parseField name)).map (⟨name, ·⟩)
            | _ => .error (.fieldsNotList name v)
  | _ => .error (.noRuleName raw.unrolled)

/-- The tag of a reference. -/
def parseTag (raw : Value) : Except Defect String :=
  match raw.get? "type" with
  | none => .ok "expr"
  | some (.str tag) => .ok tag
  | some _ => .error (.badTag raw.unrolled)

-- ============================================================== nodes

/-- Read a node with the given number of levels left below the limit,
itself counted. -/
def parseLevels (limit : Int) : Nat → Value → Except Defect (Expr RuleRef)
  | 0, _ => .error (.tooDeep limit)
  | levels + 1, raw =>
      if !raw.isMap then .error (.unknownPattern raw)
      else
        match discriminants raw with
        | [] => .error (.unknownPattern raw.unrolled)
        | [.connective c] =>
            let found := (raw.get? c.key).getD .null
            match found.unrolled with
            | .list children =>
                (children.mapM (parseLevels limit levels)).map (.join c)
            | _ => .error (.childrenNotList c found)
        | [.not] =>
            let child := (raw.get? "Not").getD .null
            if !child.truthy then .error (.emptyNot raw.unrolled)
            else
              match child.unrolled with
              | .list _ => .error (.listUnderNot child)
              | _ => (parseLevels limit levels child).map .not
        | [.rule] => (parseRule raw).map .rule
        | [.expr] => do
            let tag ← parseTag raw
            let found := (raw.get? "expr").getD .null
            match found.unrolled with
            | .str name => pure (.named tag name)
            | .map _ => (parseLevels limit levels found).map (.inline tag)
            | _ => .error (.badPayload found)
        | found => .error (.ambiguous (found.map Discriminant.word))

/-- Read an expression nested no deeper than the limit. -/
def parse (limit : Int) (raw : Value) : Except Defect (Expr RuleRef) :=
  parseLevels limit limit.toNat raw

end Expr

end Verdict
