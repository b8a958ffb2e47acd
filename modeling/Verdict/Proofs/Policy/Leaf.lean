/-
Leaves and rule documents. A rule node of an expression is read and checked entry by
entry, a rule document only as far as its values need it. A node that passes is a
document of the same instance, if it lists its fields; a rule without fields may leave
the list out of a node, but not out of a document. What an instance is written as is a
node that passes, and binding it gives the instance again.

# Vocabulary

- `i.leaf`: the leaf that an instance is written as.

# Main statements

- `readDocument_eq_bindFields`: of entries that are of the fields, under their types,
  a document binds what the leaf binds.
- `leaf_parsed`, `leaf_passes`, `bindRef_leaf`: an instance that was bound is written
  as a leaf that is read, checked and bound.
- `leaf_documents`: both ways, put together.
-/
import Verdict.Proofs.Expr.Printed
import Verdict.Proofs.Policy.Resolver
import Verdict.Proofs.Rule.Document

namespace Verdict

variable {b : Builder} {r : Rule} {ref : RuleRef} {raw : Value} {limit : Int} {rules : List String}

-- ============================================================ documents

/-- What is parsed as a leaf is read as one. -/
theorem Expr.parseRule_of_parse (h : Expr.parse limit raw = .ok (.rule ref)) :
    Expr.parseRule raw = .ok ref := by
  unfold parse at h
  cases hlevels : limit.toNat with
  | zero =>
      rw [hlevels] at h
      cases h
  | succ n =>
      rw [hlevels] at h
      obtain ⟨-, d, -, hkind⟩ := parseLevels_succ_eq_ok.1 h
      cases d with
      | connective k =>
          obtain ⟨found, items, es, -, -, -, heq⟩ := parseKind_connective_eq_ok.1 hkind
          cases heq
      | not =>
          obtain ⟨child, e, -, -, heq⟩ := parseKind_not_eq_ok.1 hkind
          cases heq
      | rule =>
          obtain ⟨ref', href, heq⟩ := Outcome.map_eq_ok.1 hkind
          injection heq with heq
          rw [← heq]
          exact href
      | expr =>
          obtain ⟨tag, -, ⟨name, -, heq⟩ | ⟨child, e, -, -, heq⟩⟩ := parseKind_expr_eq_ok.1 hkind
          · cases heq
          · cases heq

/-- An entry of a field under its type passes. -/
theorem Rule.checkEntry_typed {entry : Value} {field : FieldEntry} {spec : FieldSpec}
    (hentry : Expr.parseField ref.rule entry = .ok field) (hspec : spec ∈ r.schema.specs)
    (hname : spec.name = field.name) (htag : spec.kind.tag = field.type) :
    r.checkEntry entry = .ok () := by
  obtain ⟨hget, htype, -⟩ := Expr.parseField_eq_ok.1 hentry
  rw [Rule.checkEntry_named hget, Schema.find?_iff.2 ⟨hspec, hname⟩]
  dsimp only
  rw [htype, htag]
  exact if_pos rfl

/-- A node that lists its fields, each under its type, gives as a document what the leaf
gives. -/
theorem readDocument_eq_bindFields (hread : Expr.parseRule raw = .ok ref)
    (hfields : raw.hasKey "fields" = true)
    (htags : ∀ field ∈ ref.fields, ∃ spec ∈ r.schema.specs, spec.name = field.name
      ∧ spec.kind.tag = field.type) :
    r.readDocument raw = (r.bindFields ref.values).mapError .ofDefect := by
  obtain ⟨-, -, ⟨hnone, -⟩ | ⟨found, items, hfound, hitems, hall⟩⟩ := Expr.parseRule_eq_ok.1 hread
  · unfold Value.hasKey at hfields
    rw [hnone] at hfields
    cases hfields
  · have hall := Outcome.mapM_eq_ok.1 hall
    have hcheck : items.forM r.checkEntry = .ok () := by
      rw [Outcome.forM_eq_ok]
      intro entry hentry
      obtain ⟨field, hfield, hparsed⟩ := Pairs.of_mem_left hall hentry
      obtain ⟨spec, hspec, hname, htag⟩ := htags field hfield
      exact Rule.checkEntry_typed hparsed hspec hname htag
    have hvalues : Rule.entryValues [] items = .ok (ref.values.map fun e => (.str e.1, e.2)) := by
      refine Rule.entryValues_named (List.forall₂_map_right_iff.2 (hall.imp fun entry field h => ?_))
      obtain ⟨hname, -, hvalue⟩ := Expr.parseField_eq_ok.1 h
      exact ⟨hname, congrArg (·.getD .null) hvalue⟩
    have hlist : (raw.get? "fields").map Value.unrolled = some (.list items) := by
      rw [hfound, Option.map_some, hitems]
    rw [Rule.readDocument_of_list hlist, hcheck, hvalues]
    rfl

/-- A document that lists no fields is refused. -/
theorem readDocument_of_no_fields (h : raw.hasKey "fields" = false) :
    r.readDocument raw = .error (.defect (.noFieldList r.name)) := by
  refine Rule.readDocument_of_not_list fun items heq => ?_
  obtain ⟨v, hv, -⟩ := Option.map_eq_some_iff.1 heq
  unfold Value.hasKey at h
  rw [hv] at h
  cases h

-- =============================================================== leaves

namespace Instance

/-- The leaf that an instance is written as. -/
def leaf (i : Instance) : RuleRef :=
  ⟨i.rule.name, i.rule.schema.specs.map fun spec =>
    ⟨spec.name, spec.kind.tag, (i.read spec).toValue⟩⟩

variable {i : Instance}

theorem toValue_leaf (i : Instance) : i.leaf.toValue = i.toValue := by
  unfold leaf RuleRef.toValue Instance.toValue
  rw [List.map_map]
  rfl

theorem names_leaf (i : Instance) : i.leaf.fields.map (·.name) = i.rule.schema.names := by
  unfold leaf Schema.names
  rw [List.map_map]
  rfl

/-- The leaf has the values of the instance, where they are shown. -/
theorem Complete.values_leaf (h : i.Complete) (hshows : i.rule.Shows) :
    i.leaf.values = i.values := by
  have hnd : (i.leaf.fields.map (·.name)).Nodup := by
    rw [i.names_leaf]
    exact i.rule.schema.names_nodup
  rw [RuleRef.values_eq hnd]
  unfold leaf values
  rw [List.map_map]
  refine Pairs.map_eq (Pairs.imp_of_mem h.bound fun spec hspec b hb hbound => ?_) fun _ _ h => h
  show (spec.name, (i.read spec).toValue) = (b.1, b.2.toValue)
  rw [h.read_eq hshows hspec hb hbound.1, hbound.1]
  rfl

/-- An instance is read as its leaf, whatever more levels there are. -/
theorem leaf_parsed (hname : i.rule.name ≠ "") (hlimit : 1 ≤ limit) :
    Expr.parse limit i.toValue = .ok (.rule i.leaf) := by
  have hlegible : ∀ e, Expr.Within e (.rule i.leaf) → e.Legible :=
    Expr.forall_within_iff.2 ⟨hname, fun child hchild => absurd hchild List.not_mem_nil⟩
  have hheight : (Expr.rule i.leaf).height ≤ limit.toNat := by
    show 1 ≤ limit.toNat
    omega
  have hvalue : (Expr.rule i.leaf).toValue = i.toValue := i.toValue_leaf
  unfold Expr.parse
  rw [← hvalue]
  exact Expr.parseLevels_toValue hlegible hheight

/-- The leaf passes wherever its rule is listed. -/
theorem Complete.leaf_passes {c : Checker} (h : i.Complete) (hshows : i.rule.Shows)
    (hdecl : ∀ spec ∈ i.rule.schema.specs, spec.Declared)
    (hrule : c.ruleset.rule? i.rule.name = some i.rule) (hmem : i.rule.name ∈ rules) :
    c.checkRule rules i.leaf = .ok () := by
  have htags : ∀ field ∈ i.leaf.fields, ∃ spec ∈ i.rule.schema.specs, spec.name = field.name
      ∧ spec.kind.tag = field.type := by
    unfold leaf
    rw [List.forall_mem_map]
    exact fun spec hspec => ⟨spec, hspec, rfl, rfl⟩
  have hnd : (i.leaf.fields.map (·.name)).Nodup := by
    rw [i.names_leaf]
    exact i.rule.schema.names_nodup
  have hvalues : ∀ spec ∈ i.rule.schema.specs,
      ∃ v, i.leaf.values.at? spec.name = some v ∧ spec.kind.Takes v := by
    intro spec hspec
    obtain ⟨b, hb, hname, v, hv⟩ := Pairs.of_mem_left h.bound hspec
    refine ⟨b.2.toValue, ?_, (FieldKind.bind_toValue hv spec.name).1⟩
    rw [h.values_leaf hshows, ← hname, h.at?_values hb]
  refine checkRule_eq_ok_iff.2 ⟨i.rule, hrule, hmem,
    Rule.checkEntries_iff.2 ⟨htags, hnd, fun _ _ => List.not_mem_nil⟩,
    checkOptions_of_takes hdecl hvalues, i, ?_⟩
  rw [h.values_leaf hshows]
  exact h.rebind

/-- The leaf is bound to the instance. -/
theorem Complete.bindRef_leaf (h : i.Complete) (hshows : i.rule.Shows)
    (hrule : b.ruleset.rule? i.rule.name = some i.rule) :
    b.bindRef i.leaf = .ok ⟨i.leaf, some i⟩ := by
  unfold Builder.bindRef
  rw [show b.ruleset.rule? i.leaf.rule = some i.rule from hrule]
  dsimp only
  rw [h.values_leaf hshows, h.rebind]
  rfl

end Instance

-- ============================================================ both ways

/-- A node that is read as a leaf and passes is bound to an instance. As a document it
gives the same instance, if it lists its fields. The other way round, what a rule of the
ruleset makes of values is written as a node that is read, passes in every document that
lists the rule, and is bound to the same instance. -/
theorem leaf_documents (hc : b.ruleset.Declared) :
    (∀ limit raw ref rules, Expr.parse limit raw = .ok (.rule ref) →
      b.checker.checkRule rules ref = .ok () →
      ∃ r i, b.ruleset.rule? ref.rule = some r ∧ b.bindRef ref = .ok ⟨ref, some i⟩
        ∧ (raw.hasKey "fields" = true → r.readDocument raw = .ok i)
        ∧ (raw.hasKey "fields" = false →
          r.readDocument raw = .error (.defect (.noFieldList r.name))))
      ∧ ∀ r entries i, b.ruleset.rule? r.name = some r → r.name ≠ "" → r.Shows →
        r.bindEntries entries = .ok i →
        ∃ ref, (∀ limit, 1 ≤ limit → Expr.parse limit i.toValue = .ok (.rule ref))
          ∧ (∀ rules, r.name ∈ rules → b.checker.checkRule rules ref = .ok ())
          ∧ b.bindRef ref = .ok ⟨ref, some i⟩ := by
  refine ⟨fun limit raw ref rules hparse hcheck => ?_, fun r entries i hr hname hshows hbind => ?_⟩
  · obtain ⟨r, hr, -, hentries, -, i, hi⟩ := checkRule_eq_ok_iff.1 hcheck
    have hbound : b.bindRef ref = .ok ⟨ref, some i⟩ := by
      unfold Builder.bindRef
      rw [show b.ruleset.rule? ref.rule = some r from hr]
      dsimp only
      rw [hi]
      rfl
    refine ⟨r, i, hr, hbound, fun hfields => ?_, readDocument_of_no_fields⟩
    have htags := (Rule.checkEntries_iff.1 hentries).1
    rw [readDocument_eq_bindFields (Expr.parseRule_of_parse hparse) hfields htags, hi]
    rfl
  · obtain ⟨rfl, hcomplete⟩ := Instance.complete_of_bindEntries hbind
    exact ⟨i.leaf, fun limit => Instance.leaf_parsed hname,
      fun rules => hcomplete.leaf_passes hshows (hc _ _ hr) hr, hcomplete.bindRef_leaf hshows hr⟩

/-- A builder for a ruleset of one rule, which has a field of each kind. -/
def mixedBuilder : Builder := ⟨⟨⟨"Fields", [("Mixed", mixedRule)], some []⟩, Expr.defaultDepth⟩⟩

theorem mixedBuilder_declared : mixedBuilder.ruleset.Declared := by
  intro rule r hr
  have hmem : (rule, r) = ("Mixed", mixedRule) := List.mem_singleton.1 (Table.mem_of_at? hr)
  injection hmem with _ heq
  rw [heq]
  exact mixedRule_declared

/-- An instance of the rule goes both ways. -/
theorem mixedInstance_documents :
    mixedBuilder.ruleset.Declared ∧ mixedRule.Shows
      ∧ mixedRule.bindEntries mixedEntries = .ok mixedInstance
      ∧ ∃ ref, Expr.parse Expr.defaultDepth mixedInstance.toValue = .ok (.rule ref)
        ∧ mixedBuilder.checker.checkRule ["Mixed"] ref = .ok ()
        ∧ mixedBuilder.bindRef ref = .ok ⟨ref, some mixedInstance⟩
        ∧ mixedRule.readDocument mixedInstance.toValue = .ok mixedInstance := by
  have hentries : mixedRule.bindEntries mixedEntries = .ok mixedInstance := rfl
  obtain ⟨hreads, hwrites⟩ := leaf_documents mixedBuilder_declared
  obtain ⟨ref, hparse, hcheck, hbind⟩ :=
    hwrites mixedRule mixedEntries mixedInstance rfl (by decide) mixedRule_shows hentries
  have hparse := hparse Expr.defaultDepth (by decide)
  have hcheck := hcheck ["Mixed"] (List.mem_singleton_self _)
  obtain ⟨r, i, hr, hbound, hdocument, -⟩ := hreads _ _ ref _ hparse hcheck
  obtain rfl : mixedInstance = i := by
    injection hbind.symm.trans hbound with heq
    injection heq with _ heq
    injection heq
  obtain ⟨-, i, hi, hrule⟩ := bindRef_eq_ok hbound
  obtain rfl := Option.some.inj hi
  obtain rfl : mixedRule = r := Option.some.inj (hrule.symm.trans hr)
  exact ⟨mixedBuilder_declared, mixedRule_shows, hentries, ref, hparse, hcheck, hbind,
    hdocument rfl⟩

/-- A rule without fields. -/
def bareRule : Rule :=
  ⟨"Positive", .empty, [], fun _ _ ctx => (.ok (.value (.bool true)), ctx)⟩

/-- A builder for the ruleset of that rule. -/
def bareBuilder : Builder := ⟨⟨⟨"Fields", [("Positive", bareRule)], some []⟩, Expr.defaultDepth⟩⟩

/-- A node of the rule, which lists no fields. -/
def bareNode : Value := .object [("type", .str "rule"), ("rule", .str "Positive")]

/-- The node is read and passes, and is refused as a document. -/
theorem bareNode_refused :
    bareBuilder.ruleset.Declared
      ∧ Expr.parse Expr.defaultDepth bareNode = .ok (.rule ⟨"Positive", []⟩)
      ∧ bareBuilder.checker.checkRule ["Positive"] ⟨"Positive", []⟩ = .ok ()
      ∧ bareBuilder.ruleset.rule? "Positive" = some bareRule
      ∧ bareRule.readDocument bareNode = .error (.defect (.noFieldList "Positive")) := by
  refine ⟨fun rule r hr => ?_, by with_unfolding_all rfl, rfl, rfl, rfl⟩
  have hmem : (rule, r) = ("Positive", bareRule) := List.mem_singleton.1 (Table.mem_of_at? hr)
  injection hmem with _ heq
  rw [heq]
  exact nofun

end Verdict
