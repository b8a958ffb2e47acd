/-
The parser accepts the grammar, down to the limit. The levels of a document
are counted along the nodes that are read after one another, the root
as the first. A document that is written as an expression has as many levels
as the expression is high, so that it is read exactly if none of its nodes lies
below the limit. What is not read has a defect of its shape or of its
fields; that it is nested too deep is said only where a node does lie below
the limit.

# Vocabulary

- `Lies raw n node`: the node lies on level `n` of `raw`, which lies on level 1
  itself.
- `Refused raw n d`: the defect is one of the families that a parser of `n` levels
  may give, and one of the depth only if a node lies below them.

# Main statements

- `Reads.height_le_iff`: an expression is no higher than `n` if and only if no
  node of the document that it is read from lies below level `n`.
- `parseLevels_refused`: what is not read is refused.
- `parse_exact`: a document is read as what it is written as, down to the limit, and
  refused otherwise.
- `longNumber_unshown`: a whole number of too many digits is refused without a
  message.
-/
import Verdict.Proofs.Expr.Grammar
import Verdict.Proofs.Expr.Misread
import Verdict.Proofs.Policy.Shown

namespace Verdict

open Verdict.Outcome (Ends)

namespace Expr

variable {raw node child : Value} {limit : Int} {m n : Nat} {d : Discriminant}
  {e e' : Expr RuleRef}

-- =============================================================== levels

/-- A node lies on a level of a value: the value itself on the first, and one
level lower what lies in a value that is read after it. -/
inductive Lies : Value → Nat → Value → Prop where
  | root {raw : Value} : Lies raw 1 raw
  | under {raw child node : Value} {d : Discriminant} {n : Nat} (hchild : Under raw d child)
      (h : Lies child n node) : Lies raw (n + 1) node

/-- Nothing that is read after a node lies too deep if nothing in the node does. -/
theorem forall_lies_under (h : ∀ m node, Lies raw m node → m ≤ n + 1)
    (hchild : Under raw d child) : ∀ m node, Lies child m node → m ≤ n := by
  intro m node hlies
  exact Nat.le_of_succ_le_succ (h _ _ (.under hchild hlies))

-- ============================================================ documents

/-- In a document only what has the mark of a kind has something read after it as
that kind. -/
theorem Under.marked (hraw : raw.IsDocument) (h : Under raw d child) : Marked raw d := by
  cases h with
  | item holds _ _ => exact ⟨_, hraw.get?_iff.1 holds⟩
  | negated holds => exact ⟨_, hraw.get?_iff.1 holds⟩
  | payload holds _ => exact ⟨_, hraw.get?_iff.1 holds⟩

/-- What is read after a node of a document is a document. -/
theorem Under.isDocument (hraw : raw.IsDocument) (h : Under raw d child) :
    child.IsDocument := by
  cases h with
  | item holds list mem =>
      have hfound := hraw.held (hraw.get?_iff.1 holds)
      rw [hfound.unrolled] at list
      subst list
      exact hfound.item mem
  | negated holds => exact hraw.held (hraw.get?_iff.1 holds)
  | payload holds _ => exact hraw.held (hraw.get?_iff.1 holds)

/-- What is read after a node is written as a child of what the node is written
as. -/
theorem Reads.of_under (hraw : raw.IsDocument) (h : Reads raw e) (hchild : Under raw d child) :
    ∃ e' ∈ e.children, Reads child e' := by
  have hmarked := hchild.marked hraw
  cases h with
  | join only holds h =>
      obtain rfl := (only d).1 hmarked
      cases hchild with
      | item found list mem =>
          obtain rfl := hraw.eq_of_get? holds found
          injection list with list
          subst list
          exact Pairs.of_mem_left h mem
  | not only holds h =>
      obtain rfl := (only d).1 hmarked
      cases hchild with
      | negated found =>
          obtain rfl := hraw.eq_of_get? holds found
          exact ⟨_, List.mem_singleton_self _, h⟩
  | rule only _ _ _ =>
      obtain rfl := (only d).1 hmarked
      cases hchild
  | named only _ holds =>
      obtain rfl := (only d).1 hmarked
      cases hchild with
      | payload found map =>
          obtain rfl := hraw.eq_of_get? holds found
          cases map
  | inline only _ holds h =>
      obtain rfl := (only d).1 hmarked
      cases hchild with
      | payload found _ =>
          obtain rfl := hraw.eq_of_get? holds found
          exact ⟨_, List.mem_singleton_self _, h⟩

/-- What is written as an expression is a mapping. -/
theorem Reads.isMap (h : Reads raw e) : raw.isMap = true := by
  cases h with
  | join only _ _ => exact only.isMap
  | not only _ _ => exact only.isMap
  | rule only _ _ _ => exact only.isMap
  | named only _ _ => exact only.isMap
  | inline only _ _ _ => exact only.isMap

/-- A child of an expression is written after the node that the expression is
written as. -/
theorem Reads.under (hraw : raw.IsDocument) (h : Reads raw e) (he : e' ∈ e.children) :
    ∃ d child, Under raw d child ∧ Reads child e' := by
  cases h with
  | join _ holds h =>
      obtain ⟨child, hchild, h⟩ := Pairs.of_mem_right h he
      exact ⟨_, child, .item (hraw.get?_iff.2 holds) rfl hchild, h⟩
  | not _ holds h =>
      obtain rfl := List.mem_singleton.1 he
      exact ⟨_, _, .negated (hraw.get?_iff.2 holds), h⟩
  | rule _ _ _ _ => cases he
  | named _ _ _ => cases he
  | inline _ _ holds h =>
      obtain rfl := List.mem_singleton.1 he
      exact ⟨_, _, .payload (hraw.get?_iff.2 holds) h.isMap, h⟩

/-- A document has as many levels as the expression that it is written as is
high. -/
theorem Reads.height_le_iff (hraw : raw.IsDocument) (h : Reads raw e) :
    e.height ≤ n ↔ ∀ m node, Lies raw m node → m ≤ n := by
  constructor
  · -- each level of the document takes one from the height
    intro hle m node hlies
    induction hlies generalizing e n with
    | root => exact Nat.le_trans e.height_pos hle
    | under hchild _ ih =>
        obtain ⟨e', he, hreads⟩ := h.of_under hraw hchild
        rw [height_eq] at hle
        have hheights := heights_le_iff.1 (Nat.le_sub_of_add_le' hle) e' he
        have hlevels := ih (hchild.isDocument hraw) hreads hheights
        omega
  · intro hlevels
    induction e using byChildren generalizing raw n with
    | node e ih =>
        have hroot := hlevels 1 raw .root
        obtain ⟨n, rfl⟩ := Nat.exists_eq_add_of_le' hroot
        rw [height_eq, Nat.add_comm, Nat.add_le_add_iff_right, heights_le_iff]
        intro e' he
        obtain ⟨d, child, hchild, hreads⟩ := h.under hraw he
        exact ih e' he (hchild.isDocument hraw) hreads (forall_lies_under hlevels hchild)

-- ============================================================= refusals

/-- What is wrong with a node as it is written is one of its shape or of its
fields, and not its depth. -/
theorem ofWritten_family {d : Defect} (h : d.OfWritten node) :
    (d.IsStructuralError ∨ d.IsFieldError) ∧ d.name ≠ "NestingDepthError" := by
  cases h <;> simp [Defect.IsStructuralError, Defect.IsFieldError, Defect.name]

/-- A defect is one that a value may be refused for where so many levels of it are
read. -/
structure Refused (raw : Value) (n : Nat) (d : Defect) : Prop where
  family : d.IsStructuralError ∨ d.IsFieldError
  deep : d.name = "NestingDepthError" → ∃ m node, Lies raw m node ∧ n < m

theorem Refused.under {e : Defect} (hchild : Under raw d child) (h : Refused child n e) :
    Refused raw (n + 1) e where
  family := h.family
  deep := by
    intro hname
    obtain ⟨m, node, hlies, hlt⟩ := h.deep hname
    exact ⟨m + 1, node, .under hchild hlies, Nat.succ_lt_succ hlt⟩

/-- What is not read is refused. -/
theorem parseLevels_refused :
    Ends (Refused raw n) (fun _ => True) (parseLevels limit n raw) := by
  induction n generalizing raw with
  | zero =>
      refine ⟨Or.inl ?_, fun _ => ⟨1, raw, .root, Nat.zero_lt_one⟩⟩
      simp [Defect.IsStructuralError, Defect.name]
  | succ n ih =>
      refine parseLevels_succ_ends (fun e he => ?_) fun d child _ hchild => ?_
      · obtain ⟨hfamily, hname⟩ := ofWritten_family he
        exact ⟨hfamily, fun h => absurd h hname⟩
      · exact ih.imp (fun e he => he.under hchild) fun _ _ => trivial

-- ================================================================ exact

/-- Of a document the parser reads exactly what it is written as in the grammar,
where no node lies below the limit. Otherwise it refuses the document for its shape or
its fields; the defect can be put into words if no number of the document is too
long, and says that the document is nested too deep only if a node lies below the limit. -/
theorem parse_exact (hraw : raw.IsDocument) (limit : Int) :
    (∀ e, parse limit raw = .ok e ↔
        Reads raw e ∧ ∀ n node, Lies raw n node → (n : Int) ≤ limit)
      ∧ ∀ d, parse limit raw = .error d →
        (d.IsStructuralError ∨ d.IsFieldError) ∧ (raw.Short → d.isWritable = true)
          ∧ (d.name = "NestingDepthError" → ∃ n node, Lies raw n node ∧ limit < n) := by
  refine ⟨fun e => ?_, fun d hd => ?_⟩
  · unfold parse
    rw [parseLevels_iff hraw]
    refine and_congr_right fun hreads => ?_
    rw [hreads.height_le_iff hraw]
    -- the root lies on a level, so a limit that all levels keep is positive
    constructor
    · intro h n node hlies
      have hroot := h 1 raw .root
      have hle := h n node hlies
      omega
    · intro h n node hlies
      have hle := h n node hlies
      omega
  · have hrefused : Ends (Refused raw limit.toNat) (fun _ => True) (parse limit raw) :=
      parseLevels_refused
    rw [hd] at hrefused
    refine ⟨hrefused.family, fun hshort => ?_, fun hname => ?_⟩
    · have hshown : Ends Defect.Short Expr.Short (parse limit raw) := parseLevels_ends hshort
      rw [hd] at hshown
      exact Defect.Short.isWritable hshown
    · obtain ⟨n, node, hlies, hlt⟩ := hrefused.deep hname
      exact ⟨n, node, hlies, by omega⟩

/-- A reference under a negation. -/
def negatedName : Value := .object [("Not", .object [("expr", .str "a")])]

/-- It has two levels, and is too deep for a limit of one. -/
theorem negatedName_levels :
    negatedName.IsDocument ∧ Reads negatedName (.not (.named "expr" "a"))
      ∧ (∀ n node, Lies negatedName n node → (n : Int) ≤ 2)
      ∧ parse 1 negatedName = .error (.tooDeep 1)
      ∧ ∃ n node, Lies negatedName n node ∧ (1 : Int) < n := by
  have hdoc : negatedName.IsDocument := by
    refine .object (List.nodup_singleton _) (List.forall_mem_singleton.2 ?_)
    exact .object (List.nodup_singleton _) (List.forall_mem_singleton.2 (.str _))
  have hread : parse 2 negatedName = .ok (.not (.named "expr" "a")) := by rfl
  have hdeep : parse 1 negatedName = .error (.tooDeep 1) := by rfl
  obtain ⟨hreads, hlevels⟩ := ((parse_exact hdoc 2).1 _).1 hread
  exact ⟨hdoc, hreads, hlevels, hdeep, ((parse_exact hdoc 1).2 _ hdeep).2.2 rfl⟩

/-- A whole number that is too long to be written is refused as no expression, but
the defect has no words. -/
theorem longNumber_unshown :
    (Value.int Value.beyondDigits).IsDocument
      ∧ parse 64 (.int Value.beyondDigits) = .error (.unknownPattern (.int Value.beyondDigits))
      ∧ (Defect.unknownPattern (.int Value.beyondDigits)).isWritable = false := by
  refine ⟨.int _, rfl, ?_⟩
  have hlong : ¬ (Value.int Value.beyondDigits).isWritable = true := by
    rw [Value.Short.int_iff, Int.natAbs_natCast]
    exact Nat.lt_irrefl _
  exact List.all_eq_false.2 ⟨_, List.mem_singleton_self _, hlong⟩

end Expr

end Verdict
