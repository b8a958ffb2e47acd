/-
The parts of the check of a document, each as what it lets through. Nothing
here asks what the document is made of, so what is said of a policy holds
of every policy that the checker gives.

# Vocabulary

- `p.Checked c`: what the checker knows of a policy. Its nodes are sound and
  its leaves pass, no name leads back to itself, and no expansion is higher
  than the limit.

# Main statements

- `checkDocument_eq_ok_iff`: what the keys of a document have to hold.
- `check_eq_ok_iff`: a policy is given exactly when every part of the check
  passes.
- `checkReferences_of_expands`, `expands_of_checkReferences`: the check of
  references is one of the heights of expansions.
- `check_checked`: every policy that is given is checked.
-/
import Verdict.Proofs.Policy.Node
import Verdict.Proofs.Reference.Depth

namespace Verdict

variable {c : Checker} {document : Value} {p : Policy} {rules : List String}
  {raws : Table Value} {es : Expressions RuleRef}

-- ============================================================ documents

theorem checkRuleNames_iff :
    c.checkRuleNames rules = .ok () ↔ ∀ rule ∈ rules, rule ∈ c.ruleset.ruleNames := by
  induction rules with
  | nil => simp [Checker.checkRuleNames]
  | cons rule rules ih =>
      rw [Checker.checkRuleNames, List.forall_mem_cons, ← ih]
      by_cases h : c.ruleset.rules.has rule = true
      · rw [if_pos h]
        exact (and_iff_right (Table.has_iff.1 h)).symm
      · rw [if_neg h]
        exact iff_of_false Outcome.error_ne_ok fun hr => h (Table.has_iff.2 hr.1)

/-- What a document that passes is made of: the name of the ruleset, names of
rules of it, and a mapping of expressions. -/
theorem checkDocument_eq_ok_iff :
    c.checkDocument document = .ok (rules, raws) ↔
      document.get? "ruleset" = some (.str c.ruleset.name)
        ∧ (∃ found, document.get? "rules" = some found ∧ found.textList? = some rules)
        ∧ (∀ rule ∈ rules, rule ∈ c.ruleset.ruleNames)
        ∧ ∃ expressions entries, document.get? "expressions" = some expressions
          ∧ expressions.unrolled = .map entries
          ∧ Checker.namedExpressions entries = .ok raws := by
  unfold Checker.checkDocument
  constructor
  · intro h
    split at h
    next => cases h
    next =>
      split at h
      next => cases h
      next => cases h
      next found expressions hfound hexpressions =>
        dsimp only at h
        split at h
        next => cases h
        next hname =>
          have hruleset := Value.text?_iff.1 (not_not.1 hname)
          split at h
          next => cases h
          next rules' hrules =>
            obtain ⟨hnames, hentries⟩ := Outcome.andThen_eq_ok.1 h
            clear h
            split at hentries
            next entries hmap =>
              obtain ⟨raws', hraws, heq⟩ := Outcome.map_eq_ok.1 hentries
              injection heq with hrules' hraws'
              subst hrules' hraws'
              exact ⟨Value.get?_of_getD hruleset (by simp [Value.unrolled]),
                ⟨found, hfound, hrules⟩, checkRuleNames_iff.1 hnames,
                expressions, entries, hexpressions, hmap, hraws⟩
            next => cases hentries
  · intro h
    obtain ⟨hruleset, ⟨found, hfound, hrules⟩, hnames, expressions, entries, hexpressions,
      hmap, hraws⟩ := h
    have hname : ((document.get? "ruleset").getD .null).text? = some c.ruleset.name := by
      rw [hruleset]
      rfl
    rw [Value.isMap_of_get? hruleset, hfound, hexpressions]
    dsimp only
    rw [if_neg (by simp), if_neg (not_not.2 hname), hrules]
    refine Outcome.andThen_eq_ok.2 ⟨checkRuleNames_iff.2 hnames, ?_⟩
    rw [hmap]
    exact Outcome.map_eq_ok.2 ⟨raws, hraws, rfl⟩

-- ========================================================== expressions

theorem namedExpressions_iff {entries : List (Value × Value)} :
    Checker.namedExpressions entries = .ok raws ↔
      List.Forall₂ (fun entry raw => entry.1 = .str raw.1 ∧ entry.2 = raw.2)
        entries raws ∧ ∀ name ∈ raws.names, name ≠ "" := by
  induction entries generalizing raws with
  | nil =>
      rw [Checker.namedExpressions, Except.ok.injEq, List.forall₂_nil_left_iff]
      constructor
      · intro heq
        subst heq
        exact ⟨rfl, fun name hname => absurd hname List.not_mem_nil⟩
      · exact fun h => h.1.symm
  | cons entry entries ih =>
      obtain ⟨key, raw⟩ := entry
      unfold Checker.namedExpressions
      rw [List.forall₂_cons_left_iff]
      dsimp only
      constructor
      · intro h
        split at h
        next name =>
          split at h
          next => cases h
          next hempty =>
            obtain ⟨rest, hrest, rfl⟩ := Outcome.map_eq_ok.1 h
            obtain ⟨hrest, hnames⟩ := ih.1 hrest
            refine ⟨⟨(name, raw), rest, ⟨rfl, rfl⟩, hrest, rfl⟩, ?_⟩
            rw [Table.names_cons, List.forall_mem_cons]
            exact ⟨fun hname => hempty (String.isEmpty_iff.2 hname), hnames⟩
        next => cases h
      · intro h
        obtain ⟨⟨⟨name, raw'⟩, rest, ⟨hkey, hraw⟩, hrest, rfl⟩, hnames⟩ := h
        dsimp only at hkey hraw
        subst hkey hraw
        rw [Table.names_cons, List.forall_mem_cons] at hnames
        dsimp only
        rw [if_neg fun hempty => hnames.1 (String.isEmpty_iff.1 hempty)]
        exact Outcome.map_eq_ok.2 ⟨rest, ih.2 ⟨hrest, hnames.2⟩, rfl⟩

/-- Entries that are named are those of a table of names, none of which is
empty. -/
theorem namedExpressions_eq_ok {entries : List (Value × Value)} :
    Checker.namedExpressions entries = .ok raws ↔
      entries = raws.map (fun raw => (.str raw.1, raw.2)) ∧ ∀ name ∈ raws.names, name ≠ "" := by
  rw [namedExpressions_iff]
  refine and_congr_left fun _ => ?_
  constructor
  · intro h
    have heq : entries.map id = raws.map (fun raw => (.str raw.1, raw.2)) :=
      Pairs.map_eq h fun _ _ h => Prod.ext h.1 h.2
    rwa [List.map_id] at heq
  · intro h
    rw [h, List.forall₂_map_left_iff, List.forall₂_same]
    exact fun _ _ => ⟨rfl, rfl⟩

/-- The expressions of a document are found under the keys that stand there, in
the same order. -/
theorem keys_of_checkDocument {rules : List String}
    (h : c.checkDocument document = .ok (rules, raws)) :
    ∃ expressions entries, document.get? "expressions" = some expressions
      ∧ expressions.unrolled = .map entries ∧ entries.map (·.1) = raws.names.map .str := by
  obtain ⟨-, -, -, expressions, entries, hexpressions, hmap, hraws⟩ :=
    checkDocument_eq_ok_iff.1 h
  refine ⟨expressions, entries, hexpressions, hmap, ?_⟩
  rw [(namedExpressions_eq_ok.1 hraws).1]
  unfold Table.names
  rw [List.map_map, List.map_map]
  rfl

theorem checkNamed_iff {names : List String} :
    c.checkNamed names rules raws = .ok es ↔
      List.Forall₂ (fun raw e => raw.1 = e.1 ∧ Expr.parse c.limit raw.2 = .ok e.2
        ∧ c.checkExpr names rules e.2 = .ok ()) raws es := by
  induction raws generalizing es with
  | nil => simp [Checker.checkNamed, eq_comm]
  | cons raw raws ih =>
      rw [Checker.checkNamed, List.forall₂_cons_left_iff]
      constructor
      · intro h
        obtain ⟨e, he, h⟩ := Outcome.bind_eq_ok.1 h
        obtain ⟨hcheck, h⟩ := Outcome.andThen_eq_ok.1 h
        obtain ⟨rest, hrest, h⟩ := Outcome.bind_eq_ok.1 h
        injection h with h
        exact ⟨_, rest, ⟨rfl, he, hcheck⟩, ih.1 hrest, h.symm⟩
      · intro h
        obtain ⟨⟨name, e⟩, rest, ⟨rfl, he, hcheck⟩, hrest, rfl⟩ := h
        refine Outcome.bind_eq_ok.2 ⟨e, he, Outcome.andThen_eq_ok.2 ⟨hcheck, ?_⟩⟩
        exact Outcome.bind_eq_ok.2 ⟨rest, ih.2 hrest, rfl⟩

-- =========================================================== references

theorem checkDepths_iff {depths : Table Nat} :
    c.checkDepths depths = .ok () ↔ ∀ d ∈ depths, (d.2 : Int) ≤ c.limit := by
  induction depths with
  | nil => simp [Checker.checkDepths]
  | cons d depths ih =>
      rw [Checker.checkDepths, List.forall_mem_cons, ← ih]
      by_cases h : c.limit < d.2
      · rw [if_pos h]
        exact iff_of_false Outcome.error_ne_ok fun hd => absurd hd.1 (Int.not_le.2 h)
      · rw [if_neg h]
        exact (and_iff_right (Int.not_lt.1 h)).symm

theorem checkDepths_eq_error {depths : Table Nat} {d : Defect}
    (h : c.checkDepths depths = .error d) :
    ∃ x ∈ depths, c.limit < x.2 ∧ d = .referencesTooDeep x.1 x.2 c.limit := by
  induction depths with
  | nil => cases h
  | cons x depths ih =>
      rw [Checker.checkDepths] at h
      split at h
      next hdeep =>
        injection h with h
        exact ⟨x, List.mem_cons_self .., hdeep, h.symm⟩
      next =>
        obtain ⟨y, hy, hdeep⟩ := ih h
        exact ⟨y, List.mem_cons_of_mem _ hy, hdeep⟩

/-- Where no name reaches itself the check of the references is that of the
depths. -/
theorem NoCircle.checkReferences_eq (h : NoCircle es) (c : Checker) :
    ∃ order depths, c.checkReferences es = c.checkDepths depths
      ∧ Measured es order depths ∧ ∀ x ∈ es.names, x ∈ order := by
  obtain ⟨order, depths, horder, hdepths, hmeas, hall⟩ := h.measured
  refine ⟨order, depths, ?_, hmeas, hall⟩
  rw [Checker.checkReferences, horder]
  dsimp only [Bind.bind, Except.bind]
  rw [hdepths]

/-- References that pass lead back nowhere, and no expansion is higher than
the limit. -/
theorem expands_of_checkReferences (h : c.checkReferences es = .ok ()) :
    NoCircle es ∧ ∀ x e, es.at? x = some e →
      ∃ t, Expr.Expands es.at? e t ∧ (t.height : Int) ≤ c.limit := by
  obtain ⟨order, horder, -⟩ := Outcome.bind_eq_ok.1 h
  have hcircle : NoCircle es := referenceOrder_succeeds_iff.1 ⟨order, horder⟩
  obtain ⟨order, depths, heq, hmeas, hall⟩ := hcircle.checkReferences_eq c
  rw [heq] at h
  refine ⟨hcircle, fun x e he => ?_⟩
  obtain ⟨e', t, he', ht, hdepth⟩ := hmeas.height x (hall x (Table.mem_names_of_at? he))
  rw [he] at he'
  injection he' with he'
  subst he'
  exact ⟨t, ht, checkDepths_iff.1 h _ (Table.mem_of_at? hdepth)⟩

theorem checkReferences_of_expands (hcircle : NoCircle es)
    (h : ∀ x e, es.at? x = some e →
      ∃ t, Expr.Expands es.at? e t ∧ (t.height : Int) ≤ c.limit) :
    c.checkReferences es = .ok () := by
  obtain ⟨order, depths, heq, hmeas, -⟩ := hcircle.checkReferences_eq c
  rw [heq]
  refine checkDepths_iff.2 fun d hd => ?_
  have hx := (hmeas.declared d.1).1 (List.mem_map_of_mem hd)
  obtain ⟨e, t, he, ht, hdepth⟩ := hmeas.height d.1 hx
  obtain ⟨t', ht', hle⟩ := h d.1 e he
  rw [Table.at?_of_mem hmeas.nodup hd] at hdepth
  injection hdepth with hdepth
  rw [hdepth, ht.unique ht']
  exact hle

-- ============================================================= policies

/-- A document that is checked passes every part of the check. -/
theorem check_eq_ok_iff :
    c.check document = .ok p ↔ p.ruleset = c.ruleset.name ∧ ∃ raws,
      c.checkDocument document = .ok (p.rules, raws)
        ∧ c.checkNamed raws.names p.rules raws = .ok p.expressions
        ∧ c.checkReferences p.expressions = .ok () := by
  obtain ⟨ruleset, rules, es⟩ := p
  unfold Checker.check
  rw [Outcome.bind_eq_ok]
  constructor
  · intro h
    obtain ⟨⟨rules', raws⟩, hdocument, h⟩ := h
    obtain ⟨es', hes, h⟩ := Outcome.bind_eq_ok.1 h
    obtain ⟨hreferences, h⟩ := Outcome.andThen_eq_ok.1 h
    injection h with h
    injection h with hname hrules hexpressions
    subst hname hrules hexpressions
    exact ⟨rfl, raws, hdocument, hes, hreferences⟩
  · intro h
    obtain ⟨rfl, raws, hdocument, hes, hreferences⟩ := h
    refine ⟨(rules, raws), hdocument, Outcome.bind_eq_ok.2 ⟨es, hes, ?_⟩⟩
    exact Outcome.andThen_eq_ok.2 ⟨hreferences, rfl⟩

/-- What the checker knows of a policy. -/
structure Policy.Checked (c : Checker) (p : Policy) : Prop where
  sound : ∀ e ∈ p.expressions, ∀ d, Expr.Within d e.2 →
    Expr.Sound (fun ref => c.checkRule p.rules ref = .ok ()) p.expressions.names d
  noCircle : NoCircle p.expressions
  shallow : ∀ x e, p.expressions.at? x = some e →
    ∃ t, Expr.Expands p.expressions.at? e t ∧ (t.height : Int) ≤ c.limit

theorem check_checked (h : c.check document = .ok p) : p.Checked c := by
  obtain ⟨-, raws, -, hes, hreferences⟩ := check_eq_ok_iff.1 h
  rw [checkNamed_iff] at hes
  have hnames : raws.names = p.expressions.names := Pairs.map_eq hes fun _ _ h => h.1
  obtain ⟨hcircle, hshallow⟩ := expands_of_checkReferences hreferences
  refine ⟨fun e he => ?_, hcircle, hshallow⟩
  obtain ⟨raw, -, -, -, hcheck⟩ := Pairs.of_mem_right hes he
  rw [← hnames]
  exact checkExpr_iff.1 hcheck

namespace Policy.Checked

/-- Every name in a checked policy is declared. -/
theorem resolved (h : p.Checked c) {x : String} {e : Expr RuleRef}
    (he : p.expressions.at? x = some e) : e.Resolved p.expressions.at? := by
  intro name hname
  obtain ⟨tag, hw⟩ := hname
  exact Table.exists_at? (h.sound _ (Table.mem_of_at? he) _ hw)

theorem full (h : p.Checked c) {e : String × Expr RuleRef} (he : e ∈ p.expressions) :
    e.2.Full :=
  fun _ hw => absurd (h.sound e he _ hw) (Nat.not_succ_le_zero 1)

/-- A checked policy with expressions has a rule: some leaf stands under
them, and its rule is one of the document. -/
theorem exists_rule (h : p.Checked c) (hne : p.expressions ≠ []) :
    ∃ rule ∈ p.rules, ∃ r, c.ruleset.rule? rule = some r := by
  obtain ⟨⟨x, e⟩, he⟩ := List.exists_mem_of_ne_nil _ hne
  obtain ⟨e, he⟩ := Table.exists_at? (List.mem_map_of_mem (f := Prod.fst) he)
  obtain ⟨t, ht, -⟩ := h.shallow x e he
  have hclosed : t.Closed := ht.closed (h.resolved he) fun _ _ hd => h.resolved hd
  -- the leaf may stand under another name than `x`
  obtain ⟨ref, href⟩ := ht.exists_leaf hclosed (h.full (Table.mem_of_at? he))
    fun _ _ hd => h.full (Table.mem_of_at? hd)
  have hleaf : ∃ name d, p.expressions.at? name = some d ∧ Expr.Within (.rule ref) d := by
    rcases ht.origin href trivial with hw | hd
    · exact ⟨x, e, he, hw⟩
    · exact hd
  obtain ⟨name, d, hd, hw⟩ := hleaf
  obtain ⟨r, hr, hmem, -⟩ := exists_of_checkRule (h.sound _ (Table.mem_of_at? hd) _ hw)
  exact ⟨ref.rule, hmem, r, hr⟩

end Policy.Checked

end Verdict
