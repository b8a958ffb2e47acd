/-
What is wrong with an expression that is not read. The parser looks at one
node after the other; when it stops, it stops at a node of the document, and
the defect it gives is one of that node. The nodes it gets to are those that
stand under the root by way of nodes of one kind each.

# Vocabulary

- `Stands raw n node`: the node stands `n` levels below `raw`, and each node
  above it has one discriminant.
- `Under node d child`: a node of the kind `d` has `child` read after it.
- `d.OfWritten node`: the defect `d` is one of the node itself, as it is
  written in the document.
- `Misread raw limit n d`: the defect is one of a node fewer than `n` levels
  below `raw`, or that there is a node `n` levels below it.

# Main statements

- `parseLevels_succ_ends`: reading a value fails for the value itself, or for what is
  under it.
- `parseLevels_misread`: whatever the parser refuses is misread.
- `parse_misread`: so a whole expression that is not read is misread, with
  the levels that the limit leaves.
-/
import Verdict.Proofs.Expr.Parse

namespace Verdict

open Verdict.Outcome (Ends)

-- ================================================================ nodes

/-- A node stands so many levels below another, where each node above it is
of one kind. -/
inductive Expr.Stands (raw : Value) : Nat → Value → Prop where
  | root : Stands raw 0 raw
  | item {n : Nat} {node found child : Value} {k : Connective} {items : List Value}
      (h : Stands raw n node) (kind : discriminants node = [.connective k])
      (holds : node.get? k.key = some found) (list : found.unrolled = .list items)
      (mem : child ∈ items) : Stands raw (n + 1) child
  | negated {n : Nat} {node child : Value} (h : Stands raw n node)
      (kind : discriminants node = [.not]) (holds : node.get? "Not" = some child) :
      Stands raw (n + 1) child
  | payload {n : Nat} {node child : Value} (h : Stands raw n node)
      (kind : discriminants node = [.expr]) (holds : node.get? "expr" = some child) :
      Stands raw (n + 1) child

-- ============================================================== defects

/-- The defect is one of a node as it is written: it is of no kind, or of more
than one, or what it holds under the keys of its kind is not what the kind asks
for. -/
inductive Defect.OfWritten (node : Value) : Defect → Prop where
  | noMapping (h : node.isMap = false) : OfWritten node (.unknownPattern node)
  | noKind (map : node.isMap = true) (h : Expr.discriminants node = []) :
      OfWritten node (.unknownPattern node.unrolled)
  | manyKinds (h : 2 ≤ (Expr.discriminants node).length) :
      OfWritten node (.ambiguous ((Expr.discriminants node).map Discriminant.word))
  | noChildren {k : Connective} {found : Value}
      (kind : Expr.discriminants node = [.connective k]) (holds : node.get? k.key = some found)
      (h : ∀ items, found.unrolled ≠ .list items) : OfWritten node (.childrenNotList k found)
  | falsy {child : Value} (kind : Expr.discriminants node = [.not])
      (holds : node.get? "Not" = some child) (h : child.truthy = false) :
      OfWritten node (.emptyNot node.unrolled)
  | negatedList {found : Value} {items : List Value}
      (kind : Expr.discriminants node = [.not]) (holds : node.get? "Not" = some found)
      (h : found.unrolled = .list items) : OfWritten node (.listUnderNot found)
  | noRule (kind : Expr.discriminants node = [.rule])
      (h : ∀ name, node.get? "rule" = some (.str name) → name = "") :
      OfWritten node (.noRuleName node.unrolled)
  | noFields {rule : String} {found : Value} (kind : Expr.discriminants node = [.rule])
      (holdsRule : node.get? "rule" = some (.str rule))
      (holds : node.get? "fields" = some found) (h : ∀ items, found.unrolled ≠ .list items) :
      OfWritten node (.fieldsNotList rule found)
  | noEntry {rule : String} {found entry : Value} {items : List Value}
      (kind : Expr.discriminants node = [.rule])
      (holdsRule : node.get? "rule" = some (.str rule))
      (holds : node.get? "fields" = some found) (list : found.unrolled = .list items)
      (mem : entry ∈ items)
      (h : ∀ name type v, entry.get? "name" = some (.str name) →
        entry.get? "type" = some (.str type) → entry.get? "value" ≠ some v) :
      OfWritten node (.malformedField rule entry)
  | noTag {tag : Value} (kind : Expr.discriminants node = [.expr])
      (holds : node.get? "type" = some tag) (h : ∀ s, tag ≠ .str s) :
      OfWritten node (.badTag node.unrolled)
  | noPayload {found : Value} (kind : Expr.discriminants node = [.expr])
      (holds : node.get? "expr" = some found) (name : ∀ s, found.unrolled ≠ .str s)
      (child : ∀ entries, found.unrolled ≠ .map entries) : OfWritten node (.badPayload found)

namespace Expr

/-- The defect is one of a node fewer than `n` levels below the root, or a
node stands `n` levels below it. -/
def Misread (raw : Value) (limit : Int) (n : Nat) (d : Defect) : Prop :=
  (d = .tooDeep limit ∧ ∃ node, Stands raw n node)
    ∨ ∃ m node, m < n ∧ Stands raw m node ∧ d.OfWritten node

variable {raw node : Value} {limit : Int} {m n : Nat} {d : Discriminant}

-- =============================================================== leaves

theorem parseField_ofWritten {rule : String} {entry found : Value} {items : List Value}
    (hkind : discriminants node = [.rule]) (hrule : node.get? "rule" = some (.str rule))
    (hfound : node.get? "fields" = some found) (hlist : found.unrolled = .list items)
    (hentry : entry ∈ items) :
    Ends (Defect.OfWritten node) (fun _ => True) (parseField rule entry) := by
  unfold parseField
  split
  next => trivial
  next hno =>
    exact .noEntry hkind hrule hfound hlist hentry fun name type v hname htype hv =>
      hno name type v hname htype hv

theorem parseRule_ofWritten (hkind : discriminants node = [.rule]) :
    Ends (Defect.OfWritten node) (fun _ => True) (parseRule node) := by
  unfold parseRule
  split
  next name hname =>
    split
    next hempty =>
      refine .noRule hkind fun other hother => ?_
      rw [hname] at hother
      injection hother with hother
      injection hother with hother
      rw [← hother]
      exact String.isEmpty_iff.1 hempty
    next =>
      split
      next => trivial
      next found hfound =>
        split
        next items hitems =>
          have hfields := Ends.mapM fun entry hentry =>
            parseField_ofWritten hkind hname hfound hitems hentry
          exact hfields.map fun _ _ => trivial
        next hno => exact .noFields hkind hname hfound hno
  next hno => exact .noRule hkind fun name hname => absurd hname (hno name)

theorem parseTag_ofWritten (hkind : discriminants node = [.expr]) :
    Ends (Defect.OfWritten node) (fun _ => True) (parseTag node) := by
  unfold parseTag
  split
  next => trivial
  next => trivial
  next tag hno htag => exact .noTag hkind htag hno

-- ================================================================ nodes

/-- A node holds something under the key of its kind. -/
theorem exists_get?_of_discriminants (key : String) (hd : discriminants node = [d])
    (hkey : hasDiscriminant node d = node.hasKey key) :
    ∃ found, node.get? key = some found := by
  have hmark := hasDiscriminant_of_eq hd
  rw [hkey] at hmark
  exact Option.isSome_iff_exists.1 hmark

theorem Misread.below {e : Defect} (h : Misread raw limit (m + 1 + n) e) :
    Misread raw limit (m + (n + 1)) e := by
  rwa [Nat.add_assoc, Nat.add_comm 1 n] at h

/-- What is wrong with the node itself is read before what stands under it. -/
theorem Misread.here {e : Defect} (h : Stands raw m node) (he : e.OfWritten node) :
    Misread raw limit (m + (n + 1)) e :=
  Or.inr ⟨m, node, Nat.lt_add_of_pos_right (Nat.succ_pos n), h, he⟩

/-- What is read after a node of a kind: the items of a connective, what is negated,
the mapping that is referred to. -/
inductive Under (node : Value) : Discriminant → Value → Prop where
  | item {child found : Value} {k : Connective} {items : List Value}
      (holds : node.get? k.key = some found) (list : found.unrolled = .list items)
      (mem : child ∈ items) : Under node (.connective k) child
  | negated {child : Value} (holds : node.get? "Not" = some child) : Under node .not child
  | payload {child : Value} (holds : node.get? "expr" = some child)
      (map : child.isMap = true) : Under node .expr child

/-- Reading a node of one kind fails for the node itself, or as reading what is under it
does. -/
theorem parseKind_ends {P : Defect → Prop} (hd : discriminants node = [d])
    (hwritten : ∀ e, Defect.OfWritten node e → P e)
    (hunder : ∀ child, Under node d child → Ends P (fun _ => True) (parseLevels limit n child)) :
    Ends P (fun _ => True) (parseKind limit n node d) := by
  cases d with
  | connective k =>
      obtain ⟨found, hfound⟩ := exists_get?_of_discriminants k.key hd rfl
      unfold parseKind
      dsimp only
      rw [hfound, Option.getD_some]
      split
      next items hitems =>
        have hall := Ends.mapM fun child hmem => hunder child (.item hfound hitems hmem)
        exact hall.map fun _ _ => trivial
      next hno => exact hwritten _ (.noChildren hd hfound hno)
  | not =>
      obtain ⟨child, hfound⟩ := exists_get?_of_discriminants "Not" hd rfl
      unfold parseKind
      dsimp only
      rw [hfound, Option.getD_some]
      split
      next hfalsy =>
        rw [Bool.not_eq_true'] at hfalsy
        exact hwritten _ (.falsy hd hfound hfalsy)
      next =>
        split
        next items hitems => exact hwritten _ (.negatedList hd hfound hitems)
        next => exact (hunder child (.negated hfound)).map fun _ _ => trivial
  | rule =>
      exact ((parseRule_ofWritten hd).imp hwritten fun _ _ => trivial).map fun _ _ => trivial
  | expr =>
      obtain ⟨found, hfound⟩ := exists_get?_of_discriminants "expr" hd rfl
      have htag : Ends P (fun _ => True) (parseTag node) :=
        (parseTag_ofWritten hd).imp hwritten fun _ ha => ha
      unfold parseKind
      refine htag.bind fun tag _ => ?_
      dsimp only
      rw [hfound, Option.getD_some]
      split
      next => trivial
      next entries hentries =>
        have hmap : found.isMap = true := by
          unfold Value.isMap
          rw [hentries]
        exact (hunder found (.payload hfound hmap)).map fun _ _ => trivial
      next hstr hmap => exact hwritten _ (.noPayload hd hfound hstr hmap)

/-- Reading a value with a level left fails for the value itself, or as reading what is
under it does. -/
theorem parseLevels_succ_ends {P : Defect → Prop}
    (hwritten : ∀ e, Defect.OfWritten node e → P e)
    (hunder : ∀ d child, discriminants node = [d] → Under node d child →
      Ends P (fun _ => True) (parseLevels limit n child)) :
    Ends P (fun _ => True) (parseLevels limit (n + 1) node) := by
  cases hmap : node.isMap with
  | false =>
      rw [parseLevels, hmap]
      exact hwritten _ (.noMapping hmap)
  | true =>
      rcases hd : discriminants node with _ | ⟨d, _ | ⟨d', ds⟩⟩
      · rw [parseLevels, hmap, hd]
        exact hwritten _ (.noKind hmap hd)
      · rw [parseLevels_one hmap hd]
        exact parseKind_ends hd hwritten fun child => hunder d child hd
      · -- the first of several discriminants does not matter
        have hmany : Defect.OfWritten node
            (.ambiguous ((discriminants node).map Discriminant.word)) := by
          refine .manyKinds ?_
          rw [hd]
          simp
        rw [hd] at hmany
        rw [parseLevels, hmap, hd]
        cases d <;> exact hwritten _ hmany

/-- What is under a node of one kind stands one level lower. -/
theorem Stands.under (h : Stands raw m node) (hd : discriminants node = [d]) {child : Value}
    (hchild : Under node d child) : Stands raw (m + 1) child := by
  cases hchild with
  | item holds list mem => exact .item h hd holds list mem
  | negated holds => exact .negated h hd holds
  | payload holds => exact .payload h hd holds

/-- What is not read below a node is misread. -/
theorem parseLevels_misread (h : Stands raw m node) :
    Ends (Misread raw limit (m + n)) (fun _ => True) (parseLevels limit n node) := by
  induction n generalizing m node with
  | zero => exact Or.inl ⟨rfl, node, h⟩
  | succ n ih =>
      refine parseLevels_succ_ends (fun e he => .here h he) fun d child hd hchild => ?_
      exact (ih (h.under hd hchild)).imp (fun _ he => he.below) fun _ _ => trivial

/-- An expression that is not read is misread: a node of it is not what its kind
asks for, or stands too deep. -/
theorem parse_misread {e : Defect} (h : parse limit raw = .error e) :
    Misread raw limit limit.toNat e := by
  have hends : Ends (Misread raw limit (0 + limit.toNat)) (fun _ => True) (parse limit raw) :=
    parseLevels_misread .root
  rw [h, Nat.zero_add] at hends
  exact hends

end Expr

end Verdict
