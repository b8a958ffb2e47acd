/-
What the checks of nodes ask for. An expression passes exactly when each
of its nodes is sound where it stands; what a node is to be is said of it
alone, so the walk over the expression is left out of the statement.

# Vocabulary

- `r.Filled fields`: the entries of a rule node have one value for each
  field of the rule, under its type, and nothing else.
- `r.Bindable`: a value can be bound to each field of the rule.
- `ref.Fits c rules`: the rule of a leaf is one of the ruleset and of the
  document, and its entries fill it.
- `e.Sound leaf names`: the node `e` has what its kind asks for, where
  `leaf` says what a leaf has to be. A connective has two children or more,
  a name is declared, and what stands in the place of a name is no leaf and
  no reference.

# Main statements

- `checkRule_iff`: the leaves that pass are those that fit a bindable rule.
- `checkExpr_iff`: the expressions that pass are those of sound nodes, with
  leaves that pass.
-/
import Verdict.Proofs.Expr.Nodes
import Verdict.Proofs.Rule.Fields

namespace Verdict

/-- The fields of all rules of a ruleset were declared. -/
def Ruleset.Declared (s : Ruleset) : Prop :=
  ∀ name r, s.rule? name = some r → ∀ spec ∈ r.schema.specs, spec.Declared

namespace Rule

/-- The entries give each field of a rule one value that it takes, under
its type, and no other field one. -/
structure Filled (r : Rule) (fields : List FieldEntry) : Prop where
  names : (fields.map (·.name)).Perm r.schema.names
  each : ∀ entry ∈ fields, ∀ spec ∈ r.schema.specs, spec.name = entry.name →
    spec.kind.tag = entry.type ∧ spec.kind.Takes entry.value

/-- A value can be bound to each field of a rule. -/
def Bindable (r : Rule) : Prop := ∀ spec ∈ r.schema.specs, Schema.isBindable spec = true

end Rule

-- ============================================================== leaves

variable {r : Rule} {ref : RuleRef}

/-- Where no field has two entries the values are those of the entries. -/
theorem RuleRef.values_eq (h : (ref.fields.map (·.name)).Nodup) :
    ref.values = ref.fields.map fun entry => (entry.name, entry.value) := by
  unfold values
  refine Table.ofEntries_of_nodup ?_
  rw [List.map_map]
  exact h

theorem RuleRef.names_values (h : (ref.fields.map (·.name)).Nodup) :
    ref.values.names = ref.fields.map (·.name) := by
  rw [values_eq h]
  unfold Table.names
  rw [List.map_map]
  rfl

theorem RuleRef.at?_values (h : (ref.fields.map (·.name)).Nodup) {name : String}
    {v : Value} :
    ref.values.at? name = some v ↔
      ∃ entry ∈ ref.fields, entry.name = name ∧ entry.value = v := by
  rw [Table.at?_iff_mem (by rwa [names_values h]), values_eq h, List.mem_map]
  simp only [Prod.mk.injEq]

/-- The options of declared choices let through what the choices take. -/
theorem checkOptions_of_takes {values : Table Value} {specs : List FieldSpec}
    (hdecl : ∀ spec ∈ specs, spec.Declared)
    (h : ∀ spec ∈ specs, ∃ v, values.at? spec.name = some v ∧ spec.kind.Takes v) :
    Checker.checkOptions values specs = .ok () := by
  induction specs with
  | nil => rfl
  | cons spec specs ih =>
      rw [List.forall_mem_cons] at hdecl h
      obtain ⟨⟨v, hv, htakes⟩, hrest⟩ := h
      rw [Checker.checkOptions]
      split
      next c v' hkind hv' =>
        rw [hv] at hv'
        injection hv' with hv'
        subst hv'
        rw [hkind] at htakes
        obtain ⟨m, hm, rfl⟩ := htakes
        have hany : ((spec.options.getD []).any
            fun s => (Value.str m.2).text? = some s) = true :=
          List.any_eq_true.2 ⟨m.2, hdecl.1.offers hkind hm, decide_eq_true rfl⟩
        dsimp only
        rw [hany]
        exact ih hdecl.2 hrest
      next => exact ih hdecl.2 hrest

namespace Rule

theorem Filled.nodup (h : r.Filled ref.fields) : (ref.fields.map (·.name)).Nodup :=
  h.names.nodup_iff.2 r.schema.names_nodup

/-- Each entry is of a field, under its type. -/
theorem Filled.tags (h : r.Filled ref.fields) : ∀ entry ∈ ref.fields,
    ∃ spec ∈ r.schema.specs, spec.name = entry.name ∧ spec.kind.tag = entry.type := by
  intro entry hentry
  have hname : entry.name ∈ r.schema.names := h.names.mem_iff.1 (List.mem_map_of_mem hentry)
  obtain ⟨spec, hspec, hname⟩ := List.mem_map.1 hname
  exact ⟨spec, hspec, hname, (h.each entry hentry spec hspec hname).1⟩

/-- Each field has a value that it takes. -/
theorem Filled.values (h : r.Filled ref.fields) : ∀ spec ∈ r.schema.specs,
    ∃ v, ref.values.at? spec.name = some v ∧ spec.kind.Takes v := by
  intro spec hspec
  have hname : spec.name ∈ ref.fields.map (·.name) :=
    h.names.mem_iff.2 (List.mem_map_of_mem hspec)
  obtain ⟨entry, hentry, hname⟩ := List.mem_map.1 hname
  refine ⟨entry.value, ?_, (h.each entry hentry spec hspec hname.symm).2⟩
  exact (RuleRef.at?_values h.nodup).2 ⟨entry, hentry, hname, rfl⟩

/-- Entries of the fields, under their types and without repetition, fill a
rule once each field has a value that it takes. -/
theorem filled_of_values (hnd : (ref.fields.map (·.name)).Nodup)
    (htags : ∀ entry ∈ ref.fields, ∃ spec ∈ r.schema.specs,
      spec.name = entry.name ∧ spec.kind.tag = entry.type)
    (hvalues : ∀ spec ∈ r.schema.specs,
      ∃ v, ref.values.at? spec.name = some v ∧ spec.kind.Takes v) :
    r.Filled ref.fields where
  names := by
    refine (List.perm_ext_iff_of_nodup hnd r.schema.names_nodup).2 fun name => ?_
    constructor
    · intro hname
      obtain ⟨entry, hentry, rfl⟩ := List.mem_map.1 hname
      obtain ⟨spec, hspec, hname, -⟩ := htags entry hentry
      exact List.mem_map.2 ⟨spec, hspec, hname⟩
    · intro hname
      obtain ⟨spec, hspec, rfl⟩ := List.mem_map.1 hname
      obtain ⟨v, hv, -⟩ := hvalues spec hspec
      obtain ⟨entry, hentry, hname, -⟩ := (RuleRef.at?_values hnd).1 hv
      exact List.mem_map.2 ⟨entry, hentry, hname⟩
  each := by
    intro entry hentry spec hspec hname
    obtain ⟨other, hother, heq, htag⟩ := htags entry hentry
    rw [Schema.eq_of_name hother hspec (heq.trans hname.symm)] at htag
    obtain ⟨v, hv, htakes⟩ := hvalues spec hspec
    rw [hname, (RuleRef.at?_values hnd).2 ⟨entry, hentry, rfl, rfl⟩] at hv
    injection hv with hv
    exact ⟨htag, hv ▸ htakes⟩

end Rule

/-- The rule of a leaf is one of the ruleset and of the document, and its
entries fill it. -/
def RuleRef.Fits (c : Checker) (rules : List String) (ref : RuleRef) : Prop :=
  ∃ r, c.ruleset.rule? ref.rule = some r ∧ ref.rule ∈ rules ∧ r.Filled ref.fields

variable {c : Checker} {rules : List String}

/-- A leaf passes when its rule is one of the ruleset and of the document, its
entries are of the fields, and its values bind. -/
theorem checkRule_eq_ok_iff :
    c.checkRule rules ref = .ok () ↔ ∃ r, c.ruleset.rule? ref.rule = some r ∧ ref.rule ∈ rules
      ∧ Checker.checkEntries r [] ref.fields = .ok ()
      ∧ Checker.checkOptions ref.values r.schema.specs = .ok ()
      ∧ ∃ i, r.bindFields ref.values = .ok i := by
  unfold Checker.checkRule
  split
  next hnone => simp [hnone]
  next r hr =>
    simp only [hr, Option.some.injEq, exists_eq_left']
    by_cases hmem : ref.rule ∈ rules
    · rw [if_neg (by simpa using hmem), Outcome.andThen_eq_ok, Outcome.andThen_eq_ok,
        Outcome.discard_eq_ok]
      exact (and_iff_right hmem).symm
    · rw [if_pos (by simpa using hmem)]
      exact iff_of_false Outcome.error_ne_ok fun h => hmem h.1

/-- The leaves that pass are those that fit a rule, if a value can be bound
to each of its fields. -/
theorem checkRule_iff (hc : c.ruleset.Declared)
    (hdoc : ∀ entry ∈ ref.fields, entry.value.IsDocument) :
    c.checkRule rules ref = .ok () ↔ ref.Fits c rules
      ∧ ∀ r, c.ruleset.rule? ref.rule = some r → r.Bindable := by
  have hvalues : (ref.fields.map (·.name)).Nodup →
      ∀ name v, ref.values.at? name = some v → v.IsDocument := by
    intro hnd name v hv
    obtain ⟨entry, hentry, -, rfl⟩ := (RuleRef.at?_values hnd).1 hv
    exact hdoc entry hentry
  unfold RuleRef.Fits
  rw [checkRule_eq_ok_iff]
  constructor
  · intro h
    obtain ⟨r, hr, hmem, hentries, -, hbind⟩ := h
    obtain ⟨htags, hnd, -⟩ := Rule.checkEntries_iff.1 hentries
    obtain ⟨-, hspecs⟩ := (Rule.bindFields_iff (hvalues hnd)).1 hbind
    refine ⟨⟨r, hr, hmem, Rule.filled_of_values hnd htags fun spec hspec =>
      (hspecs spec hspec).2⟩, fun r' hr' => ?_⟩
    obtain rfl : r = r' := Option.some.inj (hr.symm.trans hr')
    exact fun spec hspec => (hspecs spec hspec).1
  · intro h
    obtain ⟨⟨r, hr, hmem, hfilled⟩, hbindable⟩ := h
    have hentries : Checker.checkEntries r [] ref.fields = .ok () :=
      Rule.checkEntries_iff.2 ⟨hfilled.tags, hfilled.nodup, fun _ _ => List.not_mem_nil⟩
    refine ⟨r, hr, hmem, hentries, checkOptions_of_takes (hc _ r hr) hfilled.values, ?_⟩
    refine (Rule.bindFields_iff (hvalues hfilled.nodup)).2 ⟨?_, fun spec hspec =>
      ⟨hbindable r hr spec hspec, hfilled.values spec hspec⟩⟩
    rw [RuleRef.names_values hfilled.nodup]
    exact fun name hname => hfilled.names.mem_iff.1 hname

/-- A leaf that passes binds to its rule. -/
theorem exists_of_checkRule (h : c.checkRule rules ref = .ok ()) :
    ∃ r, c.ruleset.rule? ref.rule = some r ∧ ref.rule ∈ rules
      ∧ ∃ i, r.bindFields ref.values = .ok i := by
  obtain ⟨r, hr, hmem, -, -, hbind⟩ := checkRule_eq_ok_iff.1 h
  exact ⟨r, hr, hmem, hbind⟩

-- =============================================================== nodes

namespace Expr

/-- A node has what its kind asks for, where `leaf` says what a leaf has to
be and `names` are the declared names. -/
def Sound (leaf : RuleRef → Prop) (names : List String) : Expr RuleRef → Prop
  | .join _ children => 2 ≤ children.length
  | .not _ => True
  | .rule ref => leaf ref
  | .named _ name => name ∈ names
  | .inline _ child => (∃ k es, child = .join k es) ∨ ∃ e, child = .not e

/-- What is asked of leaves beside something else is asked of the leaves of
an expression. -/
theorem forall_sound_iff {P Q B : RuleRef → Prop} {names : List String}
    {e : Expr RuleRef} (h : ∀ ref, Within (.rule ref) e → (P ref ↔ Q ref ∧ B ref)) :
    (∀ d, Within d e → Sound P names d) ↔
      (∀ d, Within d e → Sound Q names d) ∧ ∀ ref, Within (.rule ref) e → B ref := by
  constructor
  · intro hall
    refine ⟨fun d hd => ?_, fun ref href => ((h ref href).1 (hall _ href)).2⟩
    cases d with
    | rule ref => exact ((h ref hd).1 (hall _ hd)).1
    | join k es => exact hall _ hd
    | not child => trivial
    | named tag name => exact hall _ hd
    | inline tag child => exact hall _ hd
  · intro hall d hd
    cases d with
    | rule ref => exact (h ref hd).2 ⟨hall.1 _ hd, hall.2 ref hd⟩
    | join k es => exact hall.1 _ hd
    | not child => trivial
    | named tag name => exact hall.1 _ hd
    | inline tag child => exact hall.1 _ hd

theorem isSelfStanding_iff {e : Expr RuleRef} :
    Checker.isSelfStanding e = false ↔ (∃ k es, e = .join k es) ∨ ∃ d, e = .not d := by
  cases e <;> simp [Checker.isSelfStanding]

end Expr

variable {names : List String}

theorem checkExprs_iff {es : List (Expr RuleRef)} :
    c.checkExprs names rules es = .ok () ↔ ∀ e ∈ es, c.checkExpr names rules e = .ok () := by
  induction es with
  | nil => simp [Checker.checkExprs]
  | cons e es ih =>
      rw [Checker.checkExprs, Outcome.andThen_eq_ok, ih, List.forall_mem_cons]

/-- A connective passes when it has two children or more and all of them
pass. -/
theorem checkExpr_join_iff {k : Connective} {es : List (Expr RuleRef)} :
    c.checkExpr names rules (.join k es) = .ok () ↔
      2 ≤ es.length ∧ ∀ e ∈ es, c.checkExpr names rules e = .ok () := by
  match es with
  | [] => simp [Checker.checkExpr]
  | [e] =>
      rw [Checker.checkExpr]
      refine iff_of_false ?_ fun h => absurd h.1 (Nat.not_succ_le_self 1)
      rw [Outcome.andThen_eq_ok]
      intro h
      cases h.2
  | first :: second :: rest =>
      rw [Checker.checkExpr, Outcome.andThen_eq_ok, Outcome.andThen_eq_ok, checkExprs_iff,
        List.forall_mem_cons, List.forall_mem_cons]
      exact (and_iff_right (by simp)).symm

/-- A node passes when it is sound and all that stands under it passes. -/
theorem checkExpr_node_iff {e : Expr RuleRef} :
    c.checkExpr names rules e = .ok () ↔
      Expr.Sound (fun ref => c.checkRule rules ref = .ok ()) names e
        ∧ ∀ child ∈ e.children, c.checkExpr names rules child = .ok () := by
  cases e with
  | join k es => exact checkExpr_join_iff
  | not child => simp [Checker.checkExpr, Expr.Sound, Expr.children]
  | named tag name => simp [Checker.checkExpr, Expr.Sound, Expr.children]
  | rule ref => simp [Checker.checkExpr, Expr.Sound, Expr.children]
  | inline tag child =>
      rw [Checker.checkExpr, Expr.Sound, ← Expr.isSelfStanding_iff]
      cases Checker.isSelfStanding child <;> simp [Expr.children]

/-- An expression passes when its nodes are sound, with leaves that pass. -/
theorem checkExpr_iff {e : Expr RuleRef} :
    c.checkExpr names rules e = .ok () ↔ ∀ d, Expr.Within d e →
      Expr.Sound (fun ref => c.checkRule rules ref = .ok ()) names d := by
  induction e using Expr.byChildren with
  | node e ih =>
      rw [Expr.forall_within_iff, checkExpr_node_iff]
      exact and_congr_right fun _ => forall₂_congr ih

/-- What passes refers to names that there are. -/
theorem mem_of_checkExpr {e : Expr RuleRef} (h : c.checkExpr names rules e = .ok ())
    {name : String} (hname : e.Refers name) : name ∈ names := by
  obtain ⟨tag, hw⟩ := hname
  exact checkExpr_iff.1 h _ hw

/-- What passes still passes among other names and rules, if what it refers to is
among them and no rule is missing. -/
theorem checkExpr_of_names {names' rules' : List String} {e : Expr RuleRef}
    (h : c.checkExpr names rules e = .ok ()) (hrules : ∀ rule ∈ rules, rule ∈ rules')
    (hnames : ∀ name, e.Refers name → name ∈ names') :
    c.checkExpr names' rules' e = .ok () := by
  rw [checkExpr_iff] at h ⊢
  intro d hd
  have hsound := h d hd
  cases d with
  | join k es => exact hsound
  | not child => trivial
  | rule ref =>
      obtain ⟨r, hr, hmem, hpass⟩ := checkRule_eq_ok_iff.1 hsound
      exact checkRule_eq_ok_iff.2 ⟨r, hr, hrules _ hmem, hpass⟩
  | named tag name => exact hnames name ⟨tag, hd⟩
  | inline tag child => exact hsound

end Verdict
