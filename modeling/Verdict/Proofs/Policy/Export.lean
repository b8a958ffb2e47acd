/-
Resolvers as documents. What a resolver shows of itself is the policy that it
was built from, with every name of a rule listed once and every key of a node
written out. That is another document than the one that was read, but it is
checked to be the same policy, and so it is built to the same resolver.

# Main statements

- `toValue_of_resolverOf`: a resolver shows the expressions of its policy.
- `check_toValue`: what it shows is checked to be that policy, but for the
  repetitions among the names of its rules.
- `build_toValue`: a strict build of what it shows gives that resolver.
-/
import Verdict.Proofs.Expr.Printed
import Verdict.Proofs.Policy.Evaluation

namespace Verdict

/-- A policy as a document. -/
def Policy.toValue (p : Policy) : Value :=
  .object [("ruleset", .str p.ruleset), ("rules", .texts p.rules),
    ("expressions", .object (p.expressions.map fun e => (e.1, e.2.toValue)))]

variable {b : Builder} {c : Checker} {p : Policy} {r : Resolver} {document : Value}
  {names rules : List String}

-- ================================================================ rules

theorem mem_rulesOf {name : String} {rule : Rule} (h : (name, rule) ∈ b.rulesOf names) :
    name ∈ names ∧ b.ruleset.rule? name = some rule := by
  obtain ⟨other, hother, heq⟩ := List.mem_filterMap.1 (Table.mem_of_mem_ofEntries h)
  obtain ⟨rule', hrule, heq⟩ := Option.map_eq_some_iff.1 heq
  injection heq with hname hrule'
  subst hname hrule'
  exact ⟨hother, hrule⟩

theorem mem_names_rulesOf {name : String} :
    name ∈ (b.rulesOf names).names ↔ name ∈ names ∧ ∃ rule, b.ruleset.rule? name = some rule := by
  constructor
  · intro h
    obtain ⟨⟨name, rule⟩, hmem, rfl⟩ := List.mem_map.1 h
    obtain ⟨hname, hrule⟩ := mem_rulesOf hmem
    exact ⟨hname, rule, hrule⟩
  · intro h
    obtain ⟨hname, rule, hrule⟩ := h
    have hentry : (name, rule) ∈ names.filterMap fun name =>
        (b.ruleset.rule? name).map fun r => (name, r) :=
      List.mem_filterMap.2 ⟨name, hname, Option.map_eq_some_iff.2 ⟨rule, hrule, rfl⟩⟩
    exact Table.mem_names_ofEntries.2 (List.mem_map_of_mem (f := Prod.fst) hentry)

/-- The rules of a policy are those of their names: listing each name once
changes nothing. -/
theorem rulesOf_names : b.rulesOf (b.rulesOf names).names = b.rulesOf names := by
  have hentries : (b.rulesOf names).names.filterMap (fun name =>
      (b.ruleset.rule? name).map fun r => (name, r)) = b.rulesOf names := by
    unfold Table.names
    rw [List.filterMap_map]
    refine (List.filterMap_congr fun e he => ?_).trans List.filterMap_some
    obtain ⟨-, hrule⟩ := mem_rulesOf he
    show (b.ruleset.rule? e.1).map _ = some e
    rw [hrule]
    rfl
  have hnodup : (b.rulesOf names).names.Nodup := Table.nodup_names_ofEntries _
  show Table.ofEntries _ = _
  rw [hentries]
  exact Table.ofEntries_of_nodup hnodup

-- =============================================================== checks

/-- The document of a policy is checked to be that policy. Its rules may be
listed in another order and number. -/
theorem check_toValue (h : c.check document = .ok p)
    (hrules : ∀ name, name ∈ rules ↔ name ∈ p.rules) :
    c.check { p with rules }.toValue = .ok { p with rules } := by
  obtain ⟨hname, raws, hparts, hes, hreferences⟩ := check_eq_ok_iff.1 h
  obtain ⟨-, -, hregistered, -, entries, -, -, hraws⟩ := checkDocument_eq_ok_iff.1 hparts
  rw [checkNamed_iff] at hes
  have hnames : raws.names = p.expressions.names := Pairs.map_eq hes fun _ _ h => h.1
  let shown : Table Value := p.expressions.map fun e => (e.1, e.2.toValue)
  have hshown : shown.names = p.expressions.names := Table.names_map Expr.toValue p.expressions
  refine check_eq_ok_iff.2 ⟨hname, shown, checkDocument_eq_ok_iff.2 ⟨?_, ?_, ?_, ?_⟩, ?_,
    hreferences⟩
  · rw [← hname]
    rfl
  · exact ⟨.texts rules, rfl, (Value.IsDocument.texts rules).textList?_iff.2 rfl⟩
  · exact fun name hmem => hregistered name ((hrules name).1 hmem)
  · -- the names are those of the document, so none of them is empty
    refine ⟨_, _, rfl, rfl, namedExpressions_eq_ok.2 ⟨rfl, ?_⟩⟩
    rw [hshown, ← hnames]
    exact (namedExpressions_eq_ok.1 hraws).2
  · rw [checkNamed_iff, List.forall₂_map_left_iff, List.forall₂_same]
    intro e he
    obtain ⟨raw, -, -, hparse, hcheck⟩ := Pairs.of_mem_right hes he
    rw [hshown, ← hnames]
    exact ⟨rfl, Expr.parse_back hparse, checkExpr_of_names hcheck (fun name => (hrules name).2)
      fun name => mem_of_checkExpr hcheck⟩

-- =============================================================== builds

theorem toValue_of_resolverOf (h : b.resolverOf p = .ok r) (hname : p.ruleset = b.ruleset.name) :
    r.toValue = { p with rules := (b.rulesOf p.rules).names }.toValue := by
  obtain ⟨bound, hbound, rfl⟩ := resolverOf_iff.1 h
  obtain ⟨hes, -⟩ := bindNamed_eq_ok hbound
  have hexpressions : bound.map (fun e => (e.1, e.2.toDocument))
      = p.expressions.map fun e => (e.1, e.2.toValue) := by
    rw [hes, List.map_map]
    refine List.map_congr_left fun e _ => ?_
    exact Prod.ext rfl (Expr.toValueWith_map BoundRef.ref RuleRef.toValue e.2).symm
  unfold Resolver.toValue Policy.toValue
  dsimp only
  rw [hexpressions, hname]
  rfl

variable {source : Source}

/-- What a strict build gives is built again from what it shows. So the
resolver of that document shows the same, and every evaluation of it has the
same outcome, after the same calls. -/
theorem build_toValue (h : (b.build source).value = .ok r) :
    (b.build (.document r.toValue)).value = .ok r := by
  obtain ⟨document, p, hdocument, hp, hr⟩ := build_eq_ok_iff.1 h
  obtain ⟨hname, raws, hparts, -⟩ := check_eq_ok_iff.1 hp
  obtain ⟨-, -, hregistered, -⟩ := checkDocument_eq_ok_iff.1 hparts
  -- each name that the document lists has a rule, so listing it once loses none
  have hrules : ∀ name, name ∈ (b.rulesOf p.rules).names ↔ name ∈ p.rules := by
    intro name
    rw [mem_names_rulesOf]
    exact and_iff_left_of_imp fun hmem => Table.exists_at? (hregistered name hmem)
  refine build_eq_ok_iff.2 ⟨_, { p with rules := (b.rulesOf p.rules).names }, rfl, ?_, ?_⟩
  · rw [toValue_of_resolverOf hr hname]
    exact check_toValue hp hrules
  · obtain ⟨bound, hbound, rfl⟩ := resolverOf_iff.1 hr
    exact resolverOf_iff.2 ⟨bound, hbound, by rw [rulesOf_names]⟩

/-- A reference without a tag is shown with one, and is built to the same. -/
theorem reversed_rebuilt :
    (Builder.build ⟨fieldChecker "x"⟩ (.document reversedDocument)).value
        = .ok reversedResolver
      ∧ (Builder.build ⟨fieldChecker "x"⟩ (.document reversedResolver.toValue)).value
        = .ok reversedResolver :=
  ⟨build_reversed, build_toValue build_reversed⟩

end Verdict
