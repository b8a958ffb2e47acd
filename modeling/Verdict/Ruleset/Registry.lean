/-
Registries: rulesets by name. Asking for a ruleset by name creates it; an
operation that fails leaves behind whatever it did before it failed.
-/
import Verdict.Ruleset.Basic

namespace Verdict

/-- Rulesets by name, in order of creation. -/
structure Registry where
  rulesets : Table Ruleset

namespace Registry

/-- The registry without rulesets. -/
def empty : Registry := ⟨[]⟩

/-- The names of the rulesets. -/
def names (g : Registry) : List String := g.rulesets.names

/-- Put a ruleset under its name. -/
def put (g : Registry) (s : Ruleset) : Registry := ⟨g.rulesets.put s.name s⟩

/-- The ruleset of a name, which has to exist. -/
def find (g : Registry) (name : String) : Except DeclarationError Ruleset :=
  match g.rulesets.at? name with
  | some s => .ok s
  | none => .error (.unknownRuleset name g.names)

/-- The ruleset of a name, created if it does not exist. -/
def obtain (g : Registry) (name : String) : Except DeclarationError Ruleset × Registry :=
  match g.rulesets.at? name with
  | some s => (.ok s, g)
  | none =>
      match Ruleset.create name with
      | .ok s => (.ok s, g.put s)
      | .error e => (.error e, g)

/-- Register what is offered for a rule into the ruleset of a name. -/
def register (g : Registry) (name : String) (offer : Offer) :
    Journal (Except DeclarationError Rule × Registry) :=
  match g.obtain name with
  | (.error e, g) => pure (.error e, g)
  | (.ok s, g) => do
      match ← s.register offer with
      | .error e => pure (.error e, g)
      | .ok (s, r) => pure (.ok r, g.put s)

/-- Seal the ruleset of a name, which has to exist. -/
def close (g : Registry) (name : String) :
    Journal (Except DeclarationError Signature × Registry) :=
  match g.find name with
  | .error e => pure (.error e, g)
  | .ok s => do
      match ← s.close with
      | .error e => pure (.error e, g)
      | .ok (s, signature) => pure (.ok signature, g.put s)

/-- Register offers one after the other, up to the first that fails. -/
def registerAll (g : Registry) (name : String) : List Offer →
    Journal (Except DeclarationError Unit × Registry)
  | [] => pure (.ok (), g)
  | offer :: rest => do
      match ← g.register name offer with
      | (.error e, g) => pure (.error e, g)
      | (.ok _, g) => registerAll g name rest

/-- Register rules into the ruleset of a name and seal it. -/
def define (g : Registry) (name : String) (offers : List Offer) :
    Journal (Except DeclarationError Ruleset × Registry) :=
  match g.obtain name with
  | (.error e, g) => pure (.error e, g)
  | (.ok _, g) => do
      match ← g.registerAll name offers with
      | (.error e, g) => pure (.error e, g)
      | (.ok _, g) =>
          match ← g.close name with
          | (.error e, g) => pure (.error e, g)
          | (.ok _, g) => pure (g.find name, g)

end Registry

end Verdict
