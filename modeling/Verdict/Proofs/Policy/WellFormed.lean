/-
Well-formed policies. `WellFormed c document p` says of a document, without
the checks and their order, that it is a policy for the ruleset of the
checker, and that the policy is `p`: what has to stand under which key, what
each node of an expression has to be, and how the expressions may refer to
each other.

# Main statements

- `check_iff`: the checker gives a policy exactly for the documents that are
  well-formed and use no rule with a field that no value can be bound to.
- `wellFormed_refused`: there is such a rule, and a well-formed document with
  a leaf of it, which the checker refuses for the field that is hidden.
-/
import Verdict.Proofs.Expr.Grammar
import Verdict.Proofs.Policy.Check

namespace Verdict

/-- A document is a well-formed policy for the ruleset of a checker. -/
structure WellFormed (c : Checker) (document : Value) (p : Policy) : Prop where
  name : p.ruleset = c.ruleset.name
  ruleset : document.Holds "ruleset" (.str p.ruleset)
  rules : document.Holds "rules" (.texts p.rules)
  registered : ∀ rule ∈ p.rules, rule ∈ c.ruleset.ruleNames
  /-- The expressions stand under their names, in order. -/
  expressions : ∃ entries, document.Holds "expressions" (.map entries)
    ∧ List.Forall₂ (fun entry e => entry.1 = .str e.1 ∧ Expr.Reads entry.2 e.2)
      entries p.expressions
  named : ∀ name ∈ p.expressions.names, name ≠ ""
  sound : ∀ e ∈ p.expressions, ∀ d, Expr.Within d e.2 →
    Expr.Sound (RuleRef.Fits c p.rules) p.expressions.names d
  noCircle : NoCircle p.expressions
  /-- With every name replaced by what it stands for, no expression is higher
  than the limit. -/
  shallow : ∀ e ∈ p.expressions, ∃ t, Expr.Expands p.expressions.at? e.2 t
    ∧ (t.height : Int) ≤ c.limit

/-- A value can be bound to each field of the rules of a policy. -/
def Policy.Bindable (c : Checker) (p : Policy) : Prop :=
  ∀ e ∈ p.expressions, ∀ ref, Expr.Within (.rule ref) e.2 →
    ∀ r, c.ruleset.rule? ref.rule = some r → r.Bindable

variable {c : Checker} {document : Value} {p : Policy} {rules : List String}
  {raws : Table Value} {es : Expressions RuleRef}

-- ============================================================ documents

/-- The parts of a document stand under its three keys. -/
theorem checkDocument_iff (hdoc : document.IsDocument) :
    c.checkDocument document = .ok (rules, raws) ↔
      document.Holds "ruleset" (.str c.ruleset.name)
        ∧ document.Holds "rules" (.texts rules)
        ∧ (∀ rule ∈ rules, rule ∈ c.ruleset.ruleNames)
        ∧ ∃ entries, document.Holds "expressions" (.map entries)
          ∧ Checker.namedExpressions entries = .ok raws := by
  rw [checkDocument_eq_ok_iff]
  constructor
  · intro h
    obtain ⟨hruleset, ⟨found, hfound, hrules⟩, hnames, expressions, entries, hexpressions,
      hentries, hraws⟩ := h
    rw [hdoc.get?_iff] at hruleset hfound hexpressions
    rw [(hdoc.held hfound).textList?_iff] at hrules
    rw [(hdoc.held hexpressions).unrolled] at hentries
    subst hrules hentries
    exact ⟨hruleset, hfound, hnames, entries, hexpressions, hraws⟩
  · intro h
    obtain ⟨hruleset, hrules, hnames, entries, hexpressions, hraws⟩ := h
    have htexts := (hdoc.held hrules).textList?_iff.2 rfl
    rw [← hdoc.get?_iff] at hruleset hrules hexpressions
    exact ⟨hruleset, ⟨_, hrules, htexts⟩, hnames, _, entries, hexpressions, rfl, hraws⟩

-- ========================================================== expressions

/-- An expression of a document passes when it is read, is no higher than the
limit, has sound nodes and uses bindable rules. -/
theorem parse_checkExpr_iff {names : List String} {raw : Value} {e : Expr RuleRef}
    (hc : c.ruleset.Declared) (hraw : raw.IsDocument) :
    (Expr.parse c.limit raw = .ok e ∧ c.checkExpr names rules e = .ok ()) ↔
      Expr.Reads raw e ∧ (e.height : Int) ≤ c.limit
        ∧ (∀ d, Expr.Within d e → Expr.Sound (RuleRef.Fits c rules) names d)
        ∧ ∀ ref, Expr.Within (.rule ref) e →
          ∀ r, c.ruleset.rule? ref.rule = some r → r.Bindable := by
  rw [Expr.parse_iff hraw, and_assoc, checkExpr_iff]
  refine and_congr_right fun hreads => and_congr_right fun _ => ?_
  exact Expr.forall_sound_iff fun ref href =>
    checkRule_iff hc (hreads.documents hraw href)

/-- What stands under `expressions` passes when every key is a name, every
value is read, and what is read passes. -/
theorem checkEntries_reads_iff {entries : List (Value × Value)} (hc : c.ruleset.Declared)
    (hdoc : (Value.map entries).IsDocument) :
    (∃ raws, Checker.namedExpressions entries = .ok raws
      ∧ c.checkNamed raws.names rules raws = .ok es) ↔
      List.Forall₂ (fun entry e => entry.1 = .str e.1 ∧ Expr.Reads entry.2 e.2) entries es
        ∧ (∀ name ∈ es.names, name ≠ "")
        ∧ ∀ e ∈ es, (e.2.height : Int) ≤ c.limit
          ∧ (∀ d, Expr.Within d e.2 → Expr.Sound (RuleRef.Fits c rules) es.names d)
          ∧ ∀ ref, Expr.Within (.rule ref) e.2 →
            ∀ r, c.ruleset.rule? ref.rule = some r → r.Bindable := by
  have hvalues : ∀ raws : Table Value,
      List.Forall₂ (fun entry raw => entry.1 = .str raw.1 ∧ entry.2 = raw.2) entries raws →
        ∀ raw ∈ raws, raw.2.IsDocument := by
    intro raws hraws raw hraw
    obtain ⟨entry, hentry, -, heq⟩ := Pairs.of_mem_right hraws hraw
    cases hdoc with
    | map _ hall => exact heq ▸ hall entry hentry
  constructor
  · intro h
    obtain ⟨raws, hraws, hes⟩ := h
    obtain ⟨hraws, hnamed⟩ := namedExpressions_iff.1 hraws
    rw [checkNamed_iff] at hes
    have hnames : raws.names = es.names := Pairs.map_eq hes fun _ _ h => h.1
    have hpass := Pairs.imp_of_mem hes fun raw hraw e _ h =>
      And.intro h.1 ((parse_checkExpr_iff hc (hvalues raws hraws raw hraw)).1 h.2)
    refine ⟨?_, hnames ▸ hnamed, fun e he => ?_⟩
    · refine (Pairs.comp_iff.1 ⟨raws, hraws, hpass⟩).imp fun entry e h => ?_
      obtain ⟨raw, ⟨hkey, hvalue⟩, hname, hreads, -⟩ := h
      rw [hkey, hvalue, hname]
      exact ⟨rfl, hreads⟩
    · obtain ⟨raw, -, -, -, hpass⟩ := Pairs.of_mem_right hpass he
      exact hnames ▸ hpass
  · intro h
    obtain ⟨hreads, hnamed, hpass⟩ := h
    obtain ⟨raws, hraws, hes⟩ := Pairs.comp_iff.2 (hreads.imp fun entry e hentry =>
      show ∃ raw : String × Value, (entry.1 = .str raw.1 ∧ entry.2 = raw.2)
        ∧ raw.1 = e.1 ∧ Expr.Reads raw.2 e.2
      from ⟨(e.1, entry.2), ⟨hentry.1, rfl⟩, rfl, hentry.2⟩)
    have hnames : Table.names raws = es.names := Pairs.map_eq hes fun _ _ h => h.1
    refine ⟨raws, namedExpressions_iff.2 ⟨hraws, hnames ▸ hnamed⟩, ?_⟩
    refine checkNamed_iff.2 (Pairs.imp_of_mem hes fun raw hraw e he h => ⟨h.1, ?_⟩)
    exact (parse_checkExpr_iff hc (hvalues raws hraws raw hraw)).2
      ⟨h.2, hnames ▸ hpass e he⟩

-- ============================================================= policies

/-- The names of expressions that are read from a document are distinct. -/
theorem names_nodup {entries : List (Value × Value)}
    (hdoc : (Value.map entries).IsDocument)
    (h : List.Forall₂ (fun entry e => entry.1 = .str e.1 ∧ Expr.Reads entry.2 e.2)
      entries es) : es.names.Nodup := by
  have hkeys : entries.map (·.1) = es.map fun e => Value.str e.1 :=
    Pairs.map_eq h fun _ _ h => h.1
  cases hdoc with
  | map hnd _ =>
      rw [hkeys] at hnd
      refine List.Nodup.of_map Value.str ?_
      unfold Table.names
      rwa [List.map_map]

/-- The checker gives a policy exactly for a well-formed document that uses
no rule with a field to which no value can be bound. -/
theorem check_iff (hc : c.ruleset.Declared) (hdoc : document.IsDocument) :
    c.check document = .ok p ↔ WellFormed c document p ∧ p.Bindable c := by
  rw [check_eq_ok_iff]
  constructor
  · intro h
    obtain ⟨hname, raws, hdocument, hes, hreferences⟩ := h
    obtain ⟨hruleset, hrules, hregistered, entries, hentries, hraws⟩ :=
      (checkDocument_iff hdoc).1 hdocument
    obtain ⟨hreads, hnamed, hpass⟩ :=
      (checkEntries_reads_iff hc (hdoc.held hentries)).1 ⟨raws, hraws, hes⟩
    have hnd := names_nodup (hdoc.held hentries) hreads
    obtain ⟨hcircle, hshallow⟩ := expands_of_checkReferences hreferences
    exact ⟨⟨hname, hname ▸ hruleset, hrules, hregistered, ⟨entries, hentries, hreads⟩,
      hnamed, fun e he => (hpass e he).2.1, hcircle,
      fun e he => hshallow e.1 e.2 (Table.at?_of_mem hnd he)⟩,
      fun e he => (hpass e he).2.2⟩
  · intro h
    obtain ⟨h, hbindable⟩ := h
    obtain ⟨entries, hentries, hreads⟩ := h.expressions
    have hlow : ∀ e ∈ p.expressions, (e.2.height : Int) ≤ c.limit := by
      intro e he
      obtain ⟨t, ht, hle⟩ := h.shallow e he
      have hheight := ht.height_le
      omega
    obtain ⟨raws, hraws, hes⟩ := (checkEntries_reads_iff hc (hdoc.held hentries)).2
      ⟨hreads, h.named, fun e he => ⟨hlow e he, h.sound e he, hbindable e he⟩⟩
    refine ⟨h.name, raws, (checkDocument_iff hdoc).2 ⟨h.name ▸ h.ruleset, h.rules,
      h.registered, entries, hentries, hraws⟩, hes, ?_⟩
    exact checkReferences_of_expands h.noCircle fun x e he =>
      h.shallow (x, e) (Table.mem_of_at? he)

-- ======================================================== hidden fields

/-- A rule with one field, which holds a whole number. -/
def fieldRule (name : String) : Rule where
  name := "Positive"
  schema := ⟨[⟨name, .integer, name, none⟩], List.nodup_singleton _⟩
  params := []
  body := fun _ _ ctx => (.ok (.value (.bool true)), ctx)

/-- A checker for the ruleset of that rule. -/
def fieldChecker (name : String) : Checker :=
  ⟨⟨"Fields", [("Positive", fieldRule name)], some []⟩, Expr.defaultDepth⟩

/-- A policy with one leaf of the rule. -/
def fieldPolicy (name : String) : Policy :=
  ⟨"Fields", ["Positive"],
    [("main", .rule ⟨"Positive", [⟨name, "integer", .int 1⟩]⟩)]⟩

/-- The document of that policy. -/
def fieldDocument (name : String) : Value :=
  .object [("ruleset", .str "Fields"), ("rules", .texts ["Positive"]),
    ("expressions", .object [("main", .object [("type", .str "rule"),
      ("rule", .str "Positive"), ("fields", .list [.object [("name", .str name),
        ("type", .str "integer"), ("value", .int 1)]])])])]

/-- The rule is the only one of its ruleset. -/
theorem fieldChecker_rule {name rule : String} {r : Rule}
    (h : (fieldChecker name).ruleset.rule? rule = some r) : r = fieldRule name := by
  have hmem := Table.mem_of_at? h
  have heq : (rule, r) = ("Positive", fieldRule name) := List.mem_singleton.1 hmem
  injection heq

theorem fieldChecker_declared (name : String) (hname : name ≠ "") :
    (fieldChecker name).ruleset.Declared := by
  intro rule r hr spec hspec
  rw [fieldChecker_rule hr] at hspec
  rw [List.mem_singleton.1 hspec]
  have hpart : FieldSpec.namePart (some (.str name)) = .ok name := by
    unfold FieldSpec.namePart
    split
    next h =>
      injection h with h
      exact absurd h hname
    next => rfl
  have hdeclare : FieldSpec.declare .integer (.str name) none
      = .ok ⟨name, .integer, name, none⟩ := by
    unfold FieldSpec.declare FieldSpec.ofParts
    rw [hpart]
    rfl
  exact .plain rfl hdeclare

theorem fieldDocument_isDocument (name : String) : (fieldDocument name).IsDocument := by
  have hentry : (Value.object [("name", .str name), ("type", .str "integer"),
      ("value", .int 1)]).IsDocument := by
    refine .object (by simp) ?_
    simp [Value.IsDocument.str, Value.IsDocument.int]
  have hnode : (Value.object [("type", .str "rule"), ("rule", .str "Positive"),
      ("fields", .list [.object [("name", .str name), ("type", .str "integer"),
        ("value", .int 1)]])]).IsDocument := by
    refine .object (by simp) ?_
    simp [Value.IsDocument.str]
    exact .list (by simpa using hentry)
  refine .object (by simp) ?_
  simp [Value.IsDocument.str, Value.IsDocument.texts]
  exact .object (by simp) (by simpa using hnode)

/-- The document is well-formed, whatever the field is called. -/
theorem fieldDocument_wellFormed (name : String) :
    WellFormed (fieldChecker name) (fieldDocument name) (fieldPolicy name) where
  name := rfl
  ruleset := by simp [fieldDocument, fieldPolicy]
  rules := by simp [fieldDocument, fieldPolicy]
  registered := by simp [fieldPolicy, fieldChecker, Ruleset.ruleNames]
  expressions := by
    refine ⟨_, Value.holds_object.2 (by simp; rfl), .cons ⟨rfl, ?_⟩ .nil⟩
    refine .rule ?_ (Value.holds_object.2 (by simp)) (show "Positive" ≠ "" by decide)
      (Or.inr ⟨_, Value.holds_object.2 (by simp; rfl), .cons ?_ .nil⟩)
    · intro d
      cases d with
      | connective k => cases k <;> simp [Expr.Marked, Connective.key]
      | _ => simp [Expr.Marked]
    · simp [Expr.ReadsEntry]
  named := by simp [fieldPolicy]
  sound := by
    intro e he d hd
    rw [List.mem_singleton.1 he] at hd
    rcases Expr.within_iff.1 hd with rfl | ⟨child, hchild, -⟩
    · refine ⟨fieldRule name, rfl, List.mem_singleton_self _, List.Perm.refl _, ?_⟩
      intro entry hentry spec hspec _
      rw [List.mem_singleton.1 hentry, List.mem_singleton.1 hspec]
      exact ⟨rfl, 1, rfl⟩
    · cases hchild
  noCircle := by
    refine noCircle_of_closed fun e he other hrefers => ?_
    rw [List.mem_singleton.1 he] at hrefers
    obtain ⟨tag, hw⟩ := hrefers
    rcases Expr.within_iff.1 hw with heq | ⟨child, hchild, -⟩
    · cases heq
    · cases hchild
  shallow := by
    intro e he
    rw [List.mem_singleton.1 he]
    exact ⟨_, .rule _, show (1 : Int) ≤ 64 by decide⟩

/-- A document that fills a field with a plain name is accepted. -/
theorem field_accepted :
    (fieldChecker "x").ruleset.Declared ∧ (fieldDocument "x").IsDocument
      ∧ (fieldChecker "x").check (fieldDocument "x") = .ok (fieldPolicy "x") := by
  have hc := fieldChecker_declared "x" (by decide)
  have hdoc := fieldDocument_isDocument "x"
  refine ⟨hc, hdoc, (check_iff hc hdoc).2 ⟨fieldDocument_wellFormed "x", ?_⟩⟩
  intro e he ref href r hr spec hspec
  rw [fieldChecker_rule hr] at hspec
  rw [List.mem_singleton.1 hspec]
  decide

/-- A field whose name begins with an underscore may be declared, and a
well-formed document that fills it is refused for it. -/
theorem wellFormed_refused :
    (fieldChecker "_x").ruleset.Declared ∧ (fieldDocument "_x").IsDocument
      ∧ WellFormed (fieldChecker "_x") (fieldDocument "_x") (fieldPolicy "_x")
      ∧ (fieldChecker "_x").check (fieldDocument "_x")
        = .error (.fieldValues "Positive" [⟨[.name "_x"], .undeclared⟩]) :=
  ⟨fieldChecker_declared "_x" (by decide), fieldDocument_isDocument "_x",
    fieldDocument_wellFormed "_x", rfl⟩

end Verdict
