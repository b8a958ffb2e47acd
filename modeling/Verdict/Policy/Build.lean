/-
Building: from a document to a resolver. A strict build ends at the first
defect; a permissive one logs the defect and gives the inert resolver, so
that a broken policy denies.
-/
import Verdict.Policy.Check
import Verdict.Policy.Resolver
import Verdict.Policy.Source
import Verdict.Ruleset.Registry

namespace Verdict

/-- A builder of resolvers for one sealed ruleset. -/
structure Builder where
  checker : Checker

namespace Builder

/-- The part of the program that logs builds. -/
def logger : String := "rulecomposer.policy.builder"

/-- A builder for a ruleset, which has to be sealed. -/
def create (s : Ruleset) (limit : Int) : Except DeclarationError Builder :=
  if s.isSealed then .ok ⟨⟨s, limit⟩⟩ else .error (.rulesetOpen s.name)

/-- A builder for the ruleset of a name. -/
def ofRegistry (g : Registry) (name : String) (limit : Int) :
    Except DeclarationError Builder := do
  create (← g.find name) limit

/-- The ruleset that documents are for. -/
def ruleset (b : Builder) : Ruleset := b.checker.ruleset

-- ========================================================= outcomes

/-- The instance that a leaf is bound to. -/
def bindRef (b : Builder) (ref : RuleRef) : Except Defect BoundRef :=
  match b.ruleset.rule? ref.rule with
  | some r => (r.bindFields ref.values).map fun i => ⟨ref, some i⟩
  | none => .error (.ruleUnregistered ref.rule b.ruleset.name b.ruleset.ruleNames)

/-- Bind the leaves of named expressions. -/
def bindNamed (b : Builder) :
    Expressions RuleRef → Except Defect (Expressions BoundRef)
  | [] => .ok []
  | (name, e) :: rest => do
      let e ← e.bindLeaves b.bindRef
      let rest ← bindNamed b rest
      pure ((name, e) :: rest)

/-- The rules of a policy, each once. -/
def rulesOf (b : Builder) (names : List String) : Table Rule :=
  Table.ofEntries (names.filterMap fun name =>
    (b.ruleset.rule? name).map fun r => (name, r))

/-- The resolver of a checked policy. -/
def resolverOf (b : Builder) (p : Policy) : Except Defect Resolver := do
  let expressions ← b.bindNamed p.expressions
  pure ⟨some b.ruleset.name, b.rulesOf p.rules, expressions⟩

/-- The resolver of a document. -/
def resolve (b : Builder) (document : Value) : Except Defect Resolver := do
  b.resolverOf (← b.checker.check document)

-- ============================================================ modes

/-- Check a source; what is wrong with it is the outcome. -/
def checkStrict (b : Builder) (source : Source) : Journal (Except SourceError Policy) := do
  match ← source with
  | .error e => pure (.error e)
  | .ok document =>
      match b.checker.check document with
      | .error d => pure (.error (.ofDefect d))
      | .ok p =>
          Journal.note Log.debug "rulecomposer.validation.validator"
            (s!"Validated policy for ruleset {b.ruleset.name}: "
              ++ s!"{p.rules.length} rules, {p.expressions.length} expressions")
          pure (.ok p)

/-- Whether a source passes every check; a defect is logged. -/
def accepts (b : Builder) (source : Source) : Journal (Except SourceFault Bool) := do
  match ← b.checkStrict source with
  | .ok _ => pure (.ok true)
  | .error (.fault f) => pure (.error f)
  | .error (.defect d) =>
      Journal.note Log.error logger
        s!"Policy validation failed for {b.ruleset.name}: {d.message}"
      pure (.ok false)

/-- Build a resolver; what is wrong with the source is the outcome. -/
def build (b : Builder) (source : Source) : Journal (Except SourceError Resolver) := do
  match ← b.checkStrict source with
  | .error e => pure (.error e)
  | .ok p =>
      match b.resolverOf p with
      | .error d => pure (.error (.ofDefect d))
      | .ok r =>
          Journal.note Log.info logger
            (s!"Built resolver for ruleset {b.ruleset.name} with expressions "
              ++ quotedList r.names)
          pure (.ok r)

/-- Build a resolver; a defect is logged and gives the inert one. -/
def buildPermissive (b : Builder) (source : Source) :
    Journal (Except SourceFault Resolver) := do
  match ← b.build source with
  | .ok r => pure (.ok r)
  | .error (.fault f) => pure (.error f)
  | .error (.defect d) =>
      Journal.note Log.error logger
        (s!"Policy validation failed for {b.ruleset.name}, serving inert resolver: "
          ++ s!"{d.name}: {d.message}")
      pure (.ok (.inert (some b.ruleset.name)))

end Builder

end Verdict
