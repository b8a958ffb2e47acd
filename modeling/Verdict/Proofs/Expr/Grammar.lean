/-
The grammar of expressions in documents. `Reads raw e` says, without
levels and errors, that the document value `raw` is written as the
expression `e`: every node is a mapping of one kind (`Only`), and holds
under the keys of its kind what the kind asks for.

# Main statements

- `parseLevels_iff`: of a document the parser reads what the grammar says,
  as far as it is no higher than there are levels.
- `parse_iff`: so an expression is read if it is written somewhere in the
  grammar and is no higher than the limit.
-/
import Verdict.Proofs.Expr.Nodes
import Verdict.Proofs.Expr.Parse
import Verdict.Proofs.Pairs
import Verdict.Proofs.Value.Document

namespace Verdict.Expr

-- ============================================================== grammar

/-- A node of a document has the mark of a kind. -/
def Marked (raw : Value) : Discriminant → Prop
  | .connective c => ∃ v, raw.Holds c.key v
  | .not => ∃ v, raw.Holds "Not" v
  | .rule => raw.Holds "type" (.str "rule")
  | .expr => ∃ v, raw.Holds "expr" v

/-- A node has the mark of one kind and of no other. -/
def Only (raw : Value) (d : Discriminant) : Prop := ∀ d', Marked raw d' ↔ d' = d

/-- A value is written as the entry of a rule node. -/
def ReadsEntry (raw : Value) (entry : FieldEntry) : Prop :=
  raw.Holds "name" (.str entry.name) ∧ raw.Holds "type" (.str entry.type)
    ∧ raw.Holds "value" entry.value

/-- The entries of a rule node; it may leave the list out. -/
def ReadsFields (raw : Value) (entries : List FieldEntry) : Prop :=
  ((∀ v, ¬ raw.Holds "fields" v) ∧ entries = [])
    ∨ ∃ items, raw.Holds "fields" (.list items)
      ∧ List.Forall₂ ReadsEntry items entries

/-- The tag of a reference; it may be left out. -/
def ReadsTag (raw : Value) (tag : String) : Prop :=
  ((∀ v, ¬ raw.Holds "type" v) ∧ tag = "expr") ∨ raw.Holds "type" (.str tag)

/-- A value is written as an expression. -/
inductive Reads : Value → Expr RuleRef → Prop where
  | join {raw : Value} {c : Connective} {items : List Value} {es : List (Expr RuleRef)}
      (only : Only raw (.connective c)) (holds : raw.Holds c.key (.list items))
      (h : List.Forall₂ Reads items es) : Reads raw (.join c es)
  | not {raw child : Value} {e : Expr RuleRef} (only : Only raw .not)
      (holds : raw.Holds "Not" child) (h : Reads child e) : Reads raw (.not e)
  | rule {raw : Value} {ref : RuleRef} (only : Only raw .rule)
      (holds : raw.Holds "rule" (.str ref.rule)) (hname : ref.rule ≠ "")
      (hfields : ReadsFields raw ref.fields) : Reads raw (.rule ref)
  | named {raw : Value} {tag name : String} (only : Only raw .expr)
      (htag : ReadsTag raw tag) (holds : raw.Holds "expr" (.str name)) :
      Reads raw (.named tag name)
  | inline {raw child : Value} {tag : String} {e : Expr RuleRef} (only : Only raw .expr)
      (htag : ReadsTag raw tag) (holds : raw.Holds "expr" child) (h : Reads child e) :
      Reads raw (.inline tag e)

variable {raw : Value} {e : Expr RuleRef} {d : Discriminant}

/-- What has a mark is a mapping, and not an empty one. -/
theorem Marked.isMap (h : Marked raw d) : ∃ entry entries, raw = .map (entry :: entries) := by
  have hholds : ∃ key v, raw.Holds key v := by
    cases d with
    | connective c => exact ⟨_, h⟩
    | not => exact ⟨_, h⟩
    | rule => exact ⟨_, _, h⟩
    | expr => exact ⟨_, h⟩
  obtain ⟨key, v, entries, rfl, hmem⟩ := hholds
  cases entries with
  | nil => cases hmem
  | cons entry entries => exact ⟨entry, entries, rfl⟩

theorem Only.isMap (h : Only raw d) : raw.isMap = true := by
  obtain ⟨entry, entries, rfl⟩ := ((h d).2 rfl).isMap
  rfl

-- ================================================================ marks

theorem hasDiscriminant_iff (hraw : raw.IsDocument) (d : Discriminant) :
    hasDiscriminant raw d = true ↔ Marked raw d := by
  cases d with
  | connective c => exact hraw.hasKey_iff
  | not => exact hraw.hasKey_iff
  | expr => exact hraw.hasKey_iff
  | rule =>
      unfold hasDiscriminant isRuleNode Marked
      rw [← hraw.get?_iff, decide_eq_true_iff, Option.bind_eq_some_iff]
      constructor
      · intro h
        obtain ⟨v, hv, htext⟩ := h
        rw [hv, Value.text?_iff.1 htext]
      · intro h
        exact ⟨_, h, rfl⟩

/-- The marks that are found are one exactly where a node has that mark and
no other. -/
theorem discriminants_eq_singleton (hraw : raw.IsDocument) :
    discriminants raw = [d] ↔ Only raw d := by
  have hall : ∀ d, d ∈ [Discriminant.connective .all, .connective .any, .not, .rule, .expr] := by
    intro d
    cases d with
    | connective c => cases c <;> decide
    | _ => decide
  have hmem : ∀ d', d' ∈ discriminants raw ↔ Marked raw d' := by
    intro d'
    unfold discriminants
    rw [List.mem_filter, hasDiscriminant_iff hraw]
    exact and_iff_right (hall d')
  have hnodup : (discriminants raw).Nodup := by
    unfold discriminants
    exact List.Nodup.filter _ (by decide)
  rw [Pairs.eq_singleton_iff hnodup]
  exact forall_congr' fun d' => by rw [hmem]

-- =============================================================== leaves

theorem parseField_iff (hraw : raw.IsDocument) {rule : String} {entry : FieldEntry} :
    parseField rule raw = .ok entry ↔ ReadsEntry raw entry := by
  rw [parseField_eq_ok, hraw.get?_iff, hraw.get?_iff, hraw.get?_iff]
  rfl

theorem parseTag_iff (hraw : raw.IsDocument) {tag : String} :
    parseTag raw = .ok tag ↔ ReadsTag raw tag := by
  rw [parseTag_eq_ok, hraw.get?_eq_none_iff, hraw.get?_iff]
  rfl

theorem parseFields_iff {items : List Value} (hitems : ∀ v ∈ items, v.IsDocument)
    {rule : String} {entries : List FieldEntry} :
    items.mapM (parseField rule) = .ok entries ↔ List.Forall₂ ReadsEntry items entries := by
  rw [Outcome.mapM_eq_ok]
  constructor
  · intro h
    exact Pairs.imp_of_mem h fun item hitem _ _ => (parseField_iff (hitems item hitem)).1
  · intro h
    exact Pairs.imp_of_mem h fun item hitem _ _ => (parseField_iff (hitems item hitem)).2

theorem parseRule_iff (hraw : raw.IsDocument) {ref : RuleRef} :
    parseRule raw = .ok ref ↔ raw.Holds "rule" (.str ref.rule) ∧ ref.rule ≠ ""
      ∧ ReadsFields raw ref.fields := by
  unfold ReadsFields
  rw [parseRule_eq_ok, hraw.get?_iff, hraw.get?_eq_none_iff]
  refine and_congr_right fun _ => and_congr_right fun _ => or_congr_right ?_
  constructor
  · intro h
    obtain ⟨found, items, hfound, hitems, hentries⟩ := h
    rw [hraw.get?_iff] at hfound
    have hdoc := hraw.held hfound
    rw [hdoc.unrolled] at hitems
    subst hitems
    exact ⟨items, hfound, (parseFields_iff fun _ => hdoc.item).1 hentries⟩
  · intro h
    obtain ⟨items, hfound, hentries⟩ := h
    have hdoc := hraw.held hfound
    exact ⟨_, items, hraw.get?_iff.2 hfound, rfl,
      (parseFields_iff fun _ => hdoc.item).2 hentries⟩

-- ================================================================ nodes

variable {limit : Int} {n : Nat}

/-- With a level left a document is read by the one mark that it has. -/
theorem parseLevels_succ_iff (hraw : raw.IsDocument) :
    parseLevels limit (n + 1) raw = .ok e ↔
      ∃ d, Only raw d ∧ parseKind limit n raw d = .ok e := by
  rw [parseLevels_succ_eq_ok]
  constructor
  · intro h
    obtain ⟨-, d, hd, h⟩ := h
    exact ⟨d, (discriminants_eq_singleton hraw).1 hd, h⟩
  · intro h
    obtain ⟨d, honly, h⟩ := h
    exact ⟨honly.isMap, d, (discriminants_eq_singleton hraw).2 honly, h⟩

theorem parseKind_connective (hraw : raw.IsDocument) {c : Connective} :
    parseKind limit n raw (.connective c) = .ok e ↔
      ∃ items es, raw.Holds c.key (.list items)
        ∧ items.mapM (parseLevels limit n) = .ok es ∧ e = .join c es := by
  rw [parseKind_connective_eq_ok]
  constructor
  · intro h
    obtain ⟨found, items, es, hfound, hitems, h⟩ := h
    rw [hraw.get?_iff] at hfound
    rw [(hraw.held hfound).unrolled] at hitems
    subst hitems
    exact ⟨items, es, hfound, h⟩
  · intro h
    obtain ⟨items, es, hfound, h⟩ := h
    exact ⟨_, items, es, hraw.get?_iff.2 hfound, rfl, h⟩

theorem parseKind_not (hraw : raw.IsDocument) :
    parseKind limit n raw .not = .ok e ↔
      ∃ child e', raw.Holds "Not" child ∧ parseLevels limit n child = .ok e'
        ∧ e = .not e' := by
  simp only [parseKind_not_eq_ok, hraw.get?_iff]

theorem parseKind_expr (hraw : raw.IsDocument) :
    parseKind limit n raw .expr = .ok e ↔ ∃ tag, ReadsTag raw tag
      ∧ ((∃ name, raw.Holds "expr" (.str name) ∧ e = .named tag name)
        ∨ ∃ child e', raw.Holds "expr" child ∧ parseLevels limit n child = .ok e'
          ∧ e = .inline tag e') := by
  simp only [parseKind_expr_eq_ok, parseTag_iff hraw, hraw.get?_iff]

section levels

variable {items : List Value} {es : List (Expr RuleRef)}
  (ih : ∀ {raw e}, raw.IsDocument →
    (parseLevels limit n raw = .ok e ↔ Reads raw e ∧ e.height ≤ n))

include ih

theorem mapM_parse_iff (hdoc : ∀ v ∈ items, v.IsDocument) :
    items.mapM (parseLevels limit n) = .ok es ↔
      List.Forall₂ Reads items es ∧ heights es ≤ n := by
  rw [Outcome.mapM_eq_ok, heights_le_iff]
  constructor
  · intro h
    refine ⟨Pairs.imp_of_mem h fun v hv e _ h => ((ih (hdoc v hv)).1 h).1, ?_⟩
    intro e he
    obtain ⟨v, hv, h⟩ := Pairs.of_mem_right h he
    exact ((ih (hdoc v hv)).1 h).2
  · intro h
    obtain ⟨h, hle⟩ := h
    exact Pairs.imp_of_mem h fun v hv e he h => (ih (hdoc v hv)).2 ⟨h, hle e he⟩

theorem reads_of_parseKind (hraw : raw.IsDocument) (honly : Only raw d)
    (h : parseKind limit n raw d = .ok e) : Reads raw e ∧ e.height ≤ n + 1 := by
  cases d with
  | connective c =>
      obtain ⟨items, es, hholds, hes, rfl⟩ := (parseKind_connective hraw).1 h
      obtain ⟨hes, hle⟩ := (mapM_parse_iff ih fun v => (hraw.held hholds).item).1 hes
      refine ⟨.join honly hholds hes, ?_⟩
      rw [height]
      omega
  | not =>
      obtain ⟨child, e', hholds, he, rfl⟩ := (parseKind_not hraw).1 h
      obtain ⟨he, hle⟩ := (ih (hraw.held hholds)).1 he
      refine ⟨.not honly hholds he, ?_⟩
      rw [height]
      omega
  | rule =>
      obtain ⟨ref, href, rfl⟩ := Outcome.map_eq_ok.1 h
      obtain ⟨hrule, hname, hfields⟩ := (parseRule_iff hraw).1 href
      exact ⟨.rule honly hrule hname hfields, Nat.le_add_left ..⟩
  | expr =>
      obtain ⟨tag, htag, h⟩ := (parseKind_expr hraw).1 h
      rcases h with ⟨name, hname, rfl⟩ | ⟨child, e', hholds, he, rfl⟩
      · exact ⟨.named honly htag hname, Nat.le_add_left ..⟩
      · obtain ⟨he, hle⟩ := (ih (hraw.held hholds)).1 he
        refine ⟨.inline honly htag hholds he, ?_⟩
        rw [height]
        omega

theorem parseKind_of_reads (hraw : raw.IsDocument) (h : Reads raw e)
    (hle : e.height ≤ n + 1) : ∃ d, Only raw d ∧ parseKind limit n raw d = .ok e := by
  cases h with
  | join only holds h =>
      rw [height] at hle
      have hes := (mapM_parse_iff ih fun v => (hraw.held holds).item).2 ⟨h, by omega⟩
      exact ⟨_, only, (parseKind_connective hraw).2 ⟨_, _, holds, hes, rfl⟩⟩
  | not only holds h =>
      rw [height] at hle
      have he := (ih (hraw.held holds)).2 ⟨h, by omega⟩
      exact ⟨_, only, (parseKind_not hraw).2 ⟨_, _, holds, he, rfl⟩⟩
  | rule only holds hname hfields =>
      have href := (parseRule_iff hraw).2 ⟨holds, hname, hfields⟩
      exact ⟨_, only, Outcome.map_eq_ok.2 ⟨_, href, rfl⟩⟩
  | named only htag holds =>
      exact ⟨_, only, (parseKind_expr hraw).2 ⟨_, htag, Or.inl ⟨_, holds, rfl⟩⟩⟩
  | inline only htag holds h =>
      rw [height] at hle
      have he := (ih (hraw.held holds)).2 ⟨h, by omega⟩
      exact ⟨_, only, (parseKind_expr hraw).2 ⟨_, htag, Or.inr ⟨_, _, holds, he, rfl⟩⟩⟩

end levels

/-- The parser reads of a document what the grammar says, so far as it is
no higher than there are levels. -/
theorem parseLevels_iff (hraw : raw.IsDocument) :
    parseLevels limit n raw = .ok e ↔ Reads raw e ∧ e.height ≤ n := by
  induction n generalizing raw e with
  | zero =>
      have hpos := e.height_pos
      constructor
      · intro h
        cases h
      · intro h
        omega
  | succ n ih =>
      rw [parseLevels_succ_iff hraw]
      constructor
      · intro h
        obtain ⟨d, honly, h⟩ := h
        exact reads_of_parseKind ih hraw honly h
      · intro h
        exact parseKind_of_reads ih hraw h.1 h.2

/-- An expression is read if it is written so and no higher than the
limit. -/
theorem parse_iff (hraw : raw.IsDocument) :
    parse limit raw = .ok e ↔ Reads raw e ∧ (e.height : Int) ≤ limit := by
  unfold parse
  rw [parseLevels_iff hraw]
  have hpos := e.height_pos
  refine and_congr_right fun _ => ?_
  omega

/-- The values in the leaves of what is read are documents. -/
theorem Reads.documents (hraw : raw.IsDocument) (h : Reads raw e) {ref : RuleRef}
    (href : Within (.rule ref) e) : ∀ entry ∈ ref.fields, entry.value.IsDocument := by
  induction e using induct generalizing raw with
  | join c es ih =>
      cases h with
      | join _ holds h =>
          obtain ⟨e, he, href⟩ := leaf_within_join.1 href
          obtain ⟨item, hitem, h⟩ := Pairs.of_mem_right h he
          exact ih e he ((hraw.held holds).item hitem) h href
  | not e ih =>
      cases h with
      | not _ holds h => exact ih (hraw.held holds) h (leaf_within_not.1 href)
  | rule other =>
      cases h with
      | rule _ _ _ hfields =>
          rw [leaf_within_rule.1 href]
          rcases hfields with ⟨-, hnil⟩ | ⟨items, hitems, hentries⟩
          · rw [hnil]
            intro entry hentry
            cases hentry
          · intro entry hentry
            obtain ⟨item, hitem, -, -, hvalue⟩ := Pairs.of_mem_right hentries hentry
            exact ((hraw.held hitems).item hitem).held hvalue
  | named tag name => exact absurd href leaf_within_named
  | inline tag e ih =>
      cases h with
      | inline _ _ holds h => exact ih (hraw.held holds) h (leaf_within_inline.1 href)

end Verdict.Expr
