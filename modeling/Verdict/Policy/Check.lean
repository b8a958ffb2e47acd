/-
Checking a policy document against a ruleset. The document is checked
first, then every expression on its own, then the references between
them: that none leads back to where it came from, and that none leads too
deep.
-/
import Verdict.Expr.Parse
import Verdict.Reference.Depth
import Verdict.Ruleset.Basic

namespace Verdict

/-- A policy that passed every check. -/
structure Policy where
  ruleset : String
  rules : List String
  expressions : Expressions RuleRef

/-- What a policy is checked against: a ruleset and the greatest depth of
expressions. -/
structure Checker where
  ruleset : Ruleset
  limit : Int := Expr.defaultDepth

namespace Checker

-- ========================================================== documents

/-- The defect of the first rule that the ruleset does not have. -/
def checkRuleNames (c : Checker) : List String → Except Defect Unit
  | [] => .ok ()
  | rule :: rest =>
      if c.ruleset.rules.has rule then checkRuleNames c rest
      else .error (.ruleUndefined rule c.ruleset.name c.ruleset.ruleNames)

/-- The expressions of a document by name, none of which is empty. -/
def namedExpressions : List (Value × Value) → Except Defect (Table Value)
  | [] => .ok []
  | (key, raw) :: rest =>
      match key with
      | .str name =>
          if name.isEmpty then .error (.badExpressionName key)
          else (namedExpressions rest).map ((name, raw) :: ·)
      | _ => .error (.badExpressionName key)

/-- Check what a document is made of: its rules, and its expressions as
they are written. -/
def checkDocument (c : Checker) (document : Value) :
    Except Defect (List String × Table Value) :=
  if !document.isMap then .error .notAMapping
  else
    match document.get? "rules", document.get? "expressions" with
    | none, _ => .error .noRules
    | some _, none => .error .noExpressions
    | some rules, some expressions =>
        let found := (document.get? "ruleset").getD .null
        if found.text? ≠ some c.ruleset.name then
          .error (.rulesetMismatch found c.ruleset.name)
        else
          match rules.textList? with
          | none => .error .rulesNotNames
          | some rules => do
              c.checkRuleNames rules
              match expressions.unrolled with
              | .map entries => (namedExpressions entries).map (rules, ·)
              | _ => throw .expressionsNotMapping

-- ============================================================= leaves

/-- Check the entries of a rule node one after the other; `seen` holds the
fields that have an entry. -/
def checkEntries (r : Rule) (seen : List String) : List FieldEntry → Except Defect Unit
  | [] => .ok ()
  | entry :: rest =>
      match r.schema.find? entry.name with
      | some spec =>
          if spec.kind.tag ≠ entry.type then
            .error (.invalidField r.name entry.toValue r.schema.toValue)
          else if seen.contains entry.name then
            .error (.duplicateField r.name entry.name)
          else checkEntries r (entry.name :: seen) rest
      | none => .error (.invalidField r.name entry.toValue r.schema.toValue)

/-- The first choice whose value is none of its options. -/
def checkOptions (values : Table Value) : List FieldSpec → Except Defect Unit
  | [] => .ok ()
  | spec :: rest =>
      match spec.kind, values.at? spec.name with
      | .choice _, some v =>
          let options := spec.options.getD []
          if options.any fun s => v.text? = some s then checkOptions values rest
          else .error (.notAnOption spec.name v options)
      | _, _ => checkOptions values rest

/-- Check a leaf: its rule is one of the ruleset and of the document, and
the values bind to the fields of the rule. -/
def checkRule (c : Checker) (rules : List String) (ref : RuleRef) : Except Defect Unit :=
  match c.ruleset.rule? ref.rule with
  | none => .error (.ruleUnregistered ref.rule c.ruleset.name c.ruleset.ruleNames)
  | some r => do
      if !rules.contains ref.rule then
        throw (.ruleUndeclared ref.rule (Text.sortedSet rules))
      checkEntries r [] ref.fields
      checkOptions ref.values r.schema.specs
      discard (r.bindFields ref.values)

-- ============================================================== nodes

/-- Whether a node may not stand inside a reference: leaves and references
stand for themselves. -/
def isSelfStanding : Expr RuleRef → Bool
  | .rule _ => true
  | .named _ _ => true
  | .inline _ _ => true
  | _ => false

mutual

/-- Check a node and all that stands under it. -/
def checkExpr (c : Checker) (names rules : List String) :
    Expr RuleRef → Except Defect Unit
  | .join k [] => .error (.emptyConnective k (Expr.toValue (.join k [])))
  | .join k [child] => do
      checkExpr c names rules child
      throw (.singleChild k (Expr.toValue (.join k [child])))
  | .join _ (first :: second :: rest) => do
      checkExpr c names rules first
      checkExpr c names rules second
      checkExprs c names rules rest
  | .not child => checkExpr c names rules child
  | .rule ref => c.checkRule rules ref
  | .named _ name =>
      if names.contains name then .ok ()
      else .error (.unknownExpression name (Text.sortedSet names))
  | .inline tag child =>
      if isSelfStanding child then
        .error (.redundantNesting (Expr.toValue (.inline tag child)) child.toValue)
      else checkExpr c names rules child

/-- Check nodes one after the other. -/
def checkExprs (c : Checker) (names rules : List String) :
    List (Expr RuleRef) → Except Defect Unit
  | [] => .ok ()
  | e :: rest => do
      checkExpr c names rules e
      checkExprs c names rules rest

end

/-- Read and check expressions one after the other. -/
def checkNamed (c : Checker) (names rules : List String) :
    Table Value → Except Defect (Expressions RuleRef)
  | [] => .ok []
  | (name, raw) :: rest => do
      let e ← Expr.parse c.limit raw
      c.checkExpr names rules e
      let rest ← checkNamed c names rules rest
      pure ((name, e) :: rest)

-- ========================================================= references

/-- The defect of the first depth beyond the limit. -/
def checkDepths (c : Checker) : Table Nat → Except Defect Unit
  | [] => .ok ()
  | (name, depth) :: rest =>
      if c.limit < depth then .error (.referencesTooDeep name depth c.limit)
      else checkDepths c rest

/-- Check the references between expressions. -/
def checkReferences (c : Checker) (es : Expressions RuleRef) : Except Defect Unit := do
  let order ← referenceOrder es
  -- The order is one of declared names, each of which has its expression, so the depths
  -- along it never fail.
  match depthsAlong es order [] with
  | .ok depths => c.checkDepths depths
  | .error _ => pure ()

-- =========================================================== policies

/-- Check a document. -/
def check (c : Checker) (document : Value) : Except Defect Policy := do
  let (rules, raws) ← c.checkDocument document
  let es ← c.checkNamed raws.names rules raws
  c.checkReferences es
  pure ⟨c.ruleset.name, rules, es⟩

end Checker

end Verdict
