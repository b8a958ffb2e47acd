/-
What a refusal says. A document whose parts are in order is refused for one
defect. Either the defect is that of one expression, which has it whatever
else the document says, or it is one of the references between expressions,
and then all of them pass on their own. In both cases what the defect says is
the case.

# Vocabulary

- `c.checkAlone names rules raw`: what an expression ends in on its own, read
  and then checked against the declared names.
- `d.OfFields r fields`, `d.OfLeaf c rules ref`, `d.OfNode c names rules e`:
  the defect is one of the entries of a rule node, of a leaf, of a node.
- `d.OfExpression c names rules raw`: the defect is one of a node of the
  expression, as it is written or as it is read.
- `d.OfContent`: the defect is not one of a text, and not one of the name of
  the ruleset.
- `d.OfReferences`: the defect is one of the references between expressions.
- `d.Among c es`: the references between the expressions have the defect.
- `d.OfParts c document`: the defect is one of what the document is made of.
- `c.Uses document r`: an expression of the document has a leaf of the rule.

# Main statements

- `checkExpr_inside`: what the check of nodes refuses is a defect of a node.
- `checkNamed_eq_error`: the first expression that does not pass decides.
- `checkReferences_eq_error`: what the check of references refuses is a path
  that comes back to itself, or an expansion that is too high.
- `uses_of_check`: a check that ends in something that cannot be called is of a
  document that uses a rule with a field in the place of an operation.
- `check_refused`: every refusal, put together.
-/
import Verdict.Proofs.Expr.Misread
import Verdict.Proofs.Policy.Evaluation

namespace Verdict

open Verdict.Outcome (Ends)

variable {c : Checker} {names rules : List String}

-- =============================================================== fields

/-- The defect is one of the entries that a leaf has for the fields of its
rule, or of the rule. The last three are those of values: a choice is given none
of the options that its members have, some field is given a value that it does
not take or is one that records hold no value for, and some field is one that
they call. -/
inductive Defect.OfFields (r : Rule) (fields : List FieldEntry) : Defect → Prop where
  | invalid {entry : FieldEntry} (mem : entry ∈ fields)
      (h : ∀ spec ∈ r.schema.specs, spec.name = entry.name → spec.kind.tag ≠ entry.type) :
      OfFields r fields (.invalidField r.name entry.toValue r.schema.toValue)
  | duplicate {before after : List FieldEntry} {entry : FieldEntry}
      (split : fields = before ++ entry :: after) (h : entry.name ∈ before.map (·.name)) :
      OfFields r fields (.duplicateField r.name entry.name)
  | missing {missing : List String} (some : missing ≠ [])
      (h : ∀ name, name ∈ missing ↔ name ∈ r.schema.names ∧ name ∉ fields.map (·.name)) :
      OfFields r fields (.missingFields r.name missing)
  | option {spec : FieldSpec} {choice : Choice} {entry : FieldEntry}
      (field : spec ∈ r.schema.specs) (kind : spec.kind = .choice choice)
      (mem : entry ∈ fields) (name : entry.name = spec.name)
      (h : ∀ option ∈ choice.options, entry.value ≠ .str option) :
      OfFields r fields (.notAnOption spec.name entry.value choice.options)
  | values {spec : FieldSpec} {details : List Detail} (field : spec ∈ r.schema.specs)
      (h : Schema.isHeld spec = false
        ∨ ∃ entry ∈ fields, entry.name = spec.name ∧ ¬ spec.kind.Takes entry.value) :
      OfFields r fields (.fieldValues r.name details)
  | uncallable {field found : String} (h : r.Overrides field) :
      OfFields r fields (.uncallable field found)

section fields

variable {r : Rule} {ref : RuleRef}

/-- `before` are the entries that were passed, and `seen` their names. -/
theorem checkEntries_ofFields {before rest : List FieldEntry} {seen : List String}
    (hseen : ∀ name ∈ seen, name ∈ before.map (·.name)) :
    Ends (Defect.OfFields r (before ++ rest)) (fun _ => True)
      (Checker.checkEntries r seen rest) := by
  induction rest generalizing before seen with
  | nil => trivial
  | cons entry rest ih =>
      have hmem : entry ∈ before ++ entry :: rest :=
        List.mem_append_right _ (List.mem_cons_self ..)
      rw [Checker.checkEntries]
      split
      next spec hfind =>
        obtain ⟨hspec, hname⟩ := Schema.find?_iff.1 hfind
        split
        next htag =>
          refine .invalid hmem fun other hother heq => ?_
          rwa [Schema.eq_of_name hother hspec (heq.trans hname.symm)]
        next =>
          split
          next hdup => exact .duplicate rfl (hseen _ (List.contains_iff_mem.1 hdup))
          next =>
            rw [List.append_cons]
            refine ih fun name hname => ?_
            rw [List.map_append, List.mem_append]
            rcases List.mem_cons.1 hname with rfl | hname
            · exact Or.inr (List.mem_singleton_self _)
            · exact Or.inl (hseen name hname)
      next hnone =>
        refine .invalid hmem fun spec hspec hname => ?_
        rw [Schema.find?_iff.2 ⟨hspec, hname⟩] at hnone
        cases hnone

/-- A choice that is let through is given one of its options. -/
theorem checkOptions_eq_ok {values : Table Value} {specs : List FieldSpec}
    (h : Checker.checkOptions values specs = .ok ()) {spec : FieldSpec} (hspec : spec ∈ specs)
    {choice : Choice} (hkind : spec.kind = .choice choice) {v : Value}
    (hv : values.at? spec.name = some v) : ∃ s ∈ spec.options.getD [], v = .str s := by
  induction specs with
  | nil => cases hspec
  | cons first specs ih =>
      rw [Checker.checkOptions] at h
      rcases List.mem_cons.1 hspec with rfl | hspec
      · rw [hkind, hv] at h
        dsimp only at h
        split at h
        next hany =>
          obtain ⟨s, hs, htext⟩ := List.any_eq_true.1 hany
          exact ⟨s, hs, Value.text?_iff.1 (of_decide_eq_true htext)⟩
        next => cases h
      · refine ih ?_ hspec
        split at h
        next =>
          dsimp only at h
          split at h
          next => exact h
          next => cases h
        next => exact h

theorem checkOptions_ofFields (hdecl : ∀ spec ∈ r.schema.specs, spec.Declared)
    (hnd : (ref.fields.map (·.name)).Nodup) {specs : List FieldSpec}
    (hspecs : ∀ spec ∈ specs, spec ∈ r.schema.specs) :
    Ends (Defect.OfFields r ref.fields) (fun _ => True)
      (Checker.checkOptions ref.values specs) := by
  induction specs with
  | nil => trivial
  | cons spec specs ih =>
      obtain ⟨hspec, hrest⟩ := List.forall_mem_cons.1 hspecs
      rw [Checker.checkOptions]
      split
      next choice v hkind hv =>
        dsimp only
        split
        next => exact ih hrest
        next hno =>
          obtain ⟨entry, hentry, hname, rfl⟩ := (RuleRef.at?_values hnd).1 hv
          rw [(hdecl spec hspec).options_eq hkind, Option.getD_some] at hno ⊢
          refine .option hspec hkind hentry hname fun option hoption heq => hno ?_
          rw [heq]
          exact List.any_eq_true.2 ⟨option, hoption, decide_eq_true rfl⟩
      next => exact ih hrest

/-- No choice is refused a second time for its options. -/
theorem optionDefect?_of_checkOptions (hdecl : ∀ spec ∈ r.schema.specs, spec.Declared)
    (h : Checker.checkOptions ref.values r.schema.specs = .ok ()) :
    Rule.optionDefect? (ref.values.map fun e => (.str e.1, e.2)) r.schema.specs = none := by
  refine Option.eq_none_iff_forall_ne_some.2 fun d hd => ?_
  obtain ⟨before, spec, after, v, hsplit, -, hrefuses, -⟩ := Rule.optionDefect?_eq_some.1 hd
  obtain ⟨choice, hkind, hv, hno⟩ := FieldSpec.refuses_iff.1 hrefuses
  have hspec : spec ∈ r.schema.specs := by
    rw [hsplit]
    exact List.mem_append_cons_self
  obtain ⟨s, hs, rfl⟩ := checkOptions_eq_ok h hspec hkind hv
  rw [(hdecl spec hspec).options_eq hkind, Option.getD_some] at hs
  exact hno s hs rfl

theorem bindFields_ofFields (hdecl : ∀ spec ∈ r.schema.specs, spec.Declared)
    (hentries : Checker.checkEntries r [] ref.fields = .ok ())
    (hoptions : Checker.checkOptions ref.values r.schema.specs = .ok ()) :
    Ends (Defect.OfFields r ref.fields) (fun _ => True) (r.bindFields ref.values) := by
  obtain ⟨htags, hnd, -⟩ := Rule.checkEntries_iff.1 hentries
  have hnames : ∀ name ∈ ref.values.names, name ∈ r.schema.names := by
    rw [RuleRef.names_values hnd]
    intro name hname
    obtain ⟨entry, hentry, rfl⟩ := List.mem_map.1 hname
    obtain ⟨spec, hspec, hname, -⟩ := htags entry hentry
    exact List.mem_map.2 ⟨spec, hspec, hname⟩
  unfold Rule.bindFields Rule.bindEntries
  rw [Rule.undeclaredKey?_eq_none.2 hnames]
  dsimp only
  split
  next hmissing =>
    refine .missing (fun hnil => ?_) fun name => ?_
    · rw [hnil] at hmissing
      cases hmissing
    · unfold Rule.missingNames
      rw [List.mem_filter, Value.lookup_fields, Option.isNone_iff_eq_none,
        Table.at?_eq_none_iff, RuleRef.names_values hnd]
  next hmissing =>
    rw [optionDefect?_of_checkOptions hdecl hoptions]
    dsimp only
    split
    next => trivial
    next e he =>
      cases e with
      | uncallable field found => exact .uncallable (Rule.overrides_of_record he)
      | details details =>
          by_contra hno
          rw [Bool.not_eq_true', Bool.not_eq_false, List.isEmpty_iff] at hmissing
          have hheld : ∀ spec ∈ r.schema.specs, Schema.isHeld spec = true := by
            intro spec hspec
            cases hb : Schema.isHeld spec with
            | true => rfl
            | false => exact absurd (.values hspec (Or.inl hb)) hno
          have htakes : ∀ spec ∈ r.schema.specs.filter Schema.isHeld, ∃ v,
              Value.lookup (ref.values.map fun e => (.str e.1, e.2)) spec.name = some v
                ∧ spec.kind.Takes v := by
            intro spec hspec
            have hspec := (List.mem_filter.1 hspec).1
            obtain ⟨v, hv⟩ := Rule.missingNames_eq_nil.1 hmissing spec hspec
            refine ⟨v, by rw [Value.lookup_fields, hv], ?_⟩
            by_contra hnot
            obtain ⟨entry, hentry, hname, rfl⟩ := (RuleRef.at?_values hnd).1 hv
            exact hno (.values hspec (Or.inr ⟨entry, hentry, hname, hnot⟩))
          have hkeys : r.schema.undeclaredDetails
              (ref.values.map fun e => (.str e.1, e.2)) = [] := by
            refine Schema.undeclaredDetails_eq_nil.2 fun name hname => ?_
            obtain ⟨spec, hspec, heq⟩ := List.mem_map.1 (hnames name hname)
            exact ⟨spec, hspec, hheld spec hspec, heq⟩
          obtain ⟨bindings, hbindings⟩ :=
            Schema.bindEntries_iff.2 ⟨Schema.bindFields_of_takes htakes, hkeys⟩
          rw [(Schema.record_eq_details.1 he).2] at hbindings
          cases hbindings

end fields

-- =============================================================== leaves

/-- The defect is one of a leaf: its rule is not registered or not listed in
the document, or its entries are not those of the rule. -/
inductive Defect.OfLeaf (c : Checker) (rules : List String) (ref : RuleRef) :
    Defect → Prop where
  | unregistered (h : ref.rule ∉ c.ruleset.ruleNames) :
      OfLeaf c rules ref (.ruleUnregistered ref.rule c.ruleset.name c.ruleset.ruleNames)
  | undeclared (registered : ref.rule ∈ c.ruleset.ruleNames) (h : ref.rule ∉ rules) :
      OfLeaf c rules ref (.ruleUndeclared ref.rule (Text.sortedSet rules))
  | fields {r : Rule} {d : Defect} (rule : c.ruleset.rule? ref.rule = some r)
      (listed : ref.rule ∈ rules) (h : d.OfFields r ref.fields) : OfLeaf c rules ref d

theorem checkRule_ofLeaf (hc : c.ruleset.Declared) (ref : RuleRef) :
    Ends (Defect.OfLeaf c rules ref) (fun _ => True) (c.checkRule rules ref) := by
  unfold Checker.checkRule
  split
  next hnone => exact .unregistered (Table.at?_eq_none_iff.1 hnone)
  next r hr =>
    by_cases hmem : ref.rule ∈ rules
    · have hfields : ∀ {α : Type} {x : Except Defect α},
          Ends (Defect.OfFields r ref.fields) (fun _ => True) x →
          Ends (Defect.OfLeaf c rules ref) (fun _ => True) x :=
        fun h => h.imp (fun _ hd => .fields hr hmem hd) fun _ ha => ha
      rw [if_neg (by simpa using hmem)]
      cases hentries : Checker.checkEntries r [] ref.fields with
      | error d =>
          have hends : Ends (Defect.OfFields r ([] ++ ref.fields)) (fun _ => True)
              (Checker.checkEntries r [] ref.fields) := checkEntries_ofFields fun _ h => h
          rw [hentries] at hends
          exact .fields hr hmem hends
      | ok _ =>
          have hnd := (Rule.checkEntries_iff.1 hentries).2.1
          refine Ends.bind (Q := fun _ => True) trivial fun _ _ => ?_
          cases hoptions : Checker.checkOptions ref.values r.schema.specs with
          | error d =>
              have hends := checkOptions_ofFields (hc _ r hr) hnd fun _ h => h
              rw [hoptions] at hends
              exact .fields hr hmem hends
          | ok _ =>
              refine Ends.bind (Q := fun _ => True) trivial fun _ _ => ?_
              exact (hfields (bindFields_ofFields (hc _ r hr) hentries hoptions)).map
                fun _ _ => trivial
    · rw [if_pos (by simpa using hmem)]
      exact .undeclared (Table.mem_names_of_at? hr) hmem

-- ================================================================ nodes

/-- The defect is one of a node that was read: a connective has no child, or
has one and nothing is wrong with it; a reference stands around what stands for
itself, or is to a name that is not declared; or a leaf has the defect. -/
inductive Defect.OfNode (c : Checker) (names rules : List String) :
    Expr RuleRef → Defect → Prop where
  | empty {k : Connective} :
      OfNode c names rules (.join k []) (.emptyConnective k (Expr.toValue (.join k [])))
  | single {k : Connective} {child : Expr RuleRef}
      (sound : ∀ node, Expr.Within node child →
        Expr.Sound (fun ref => c.checkRule rules ref = .ok ()) names node) :
      OfNode c names rules (.join k [child])
        (.singleChild k (Expr.toValue (.join k [child])))
  | redundant {tag : String} {child : Expr RuleRef}
      (h : (∃ ref, child = .rule ref) ∨ (∃ tag name, child = .named tag name)
        ∨ ∃ tag inner, child = .inline tag inner) :
      OfNode c names rules (.inline tag child)
        (.redundantNesting (Expr.toValue (.inline tag child)) child.toValue)
  | unknown {tag name : String} (h : name ∉ names) :
      OfNode c names rules (.named tag name)
        (.unknownExpression name (Text.sortedSet names))
  | leaf {ref : RuleRef} {d : Defect} (h : d.OfLeaf c rules ref) :
      OfNode c names rules (.rule ref) d

/-- The defect is one of a node that stands in an expression. -/
def Defect.Inside (c : Checker) (names rules : List String) (e : Expr RuleRef) (d : Defect) :
    Prop :=
  ∃ node, Expr.Within node e ∧ d.OfNode c names rules node

theorem Defect.Inside.under {e child : Expr RuleRef} (hchild : child ∈ e.children) (d : Defect)
    (h : d.Inside c names rules child) : d.Inside c names rules e := by
  obtain ⟨node, hnode, hd⟩ := h
  exact ⟨node, .under hchild hnode, hd⟩

theorem isSelfStanding_eq_true {e : Expr RuleRef} (h : Checker.isSelfStanding e = true) :
    (∃ ref, e = .rule ref) ∨ (∃ tag name, e = .named tag name)
      ∨ ∃ tag inner, e = .inline tag inner := by
  cases e with
  | rule ref => exact Or.inl ⟨ref, rfl⟩
  | named tag name => exact Or.inr (Or.inl ⟨tag, name, rfl⟩)
  | inline tag inner => exact Or.inr (Or.inr ⟨tag, inner, rfl⟩)
  | join k es => cases h
  | not e => cases h

theorem checkExprs_ofChildren {es : List (Expr RuleRef)} {P : Defect → Prop}
    (h : ∀ e ∈ es, Ends P (fun _ => True) (c.checkExpr names rules e)) :
    Ends P (fun _ => True) (c.checkExprs names rules es) := by
  induction es with
  | nil => trivial
  | cons e es ih =>
      rw [List.forall_mem_cons] at h
      rw [Checker.checkExprs]
      exact h.1.bind fun _ _ => ih h.2

/-- What the check of an expression refuses is a defect of a node in it. -/
theorem checkExpr_inside (hc : c.ruleset.Declared) (e : Expr RuleRef) :
    Ends (Defect.Inside c names rules e) (fun _ => True) (c.checkExpr names rules e) := by
  induction e using Expr.induct with
  | join k es ih =>
      have hall : ∀ e ∈ es, Ends (Defect.Inside c names rules (.join k es)) (fun _ => True)
          (c.checkExpr names rules e) :=
        fun e he => (ih e he).imp (Defect.Inside.under he) fun _ ha => ha
      match es with
      | [] => exact ⟨_, .self, .empty⟩
      | [child] =>
          rw [Checker.checkExpr]
          cases hchild : c.checkExpr names rules child with
          | error d =>
              have hends := hall child (List.mem_singleton_self child)
              rw [hchild] at hends
              exact hends
          | ok _ => exact ⟨_, .self, .single (checkExpr_iff.1 hchild)⟩
      | first :: second :: rest =>
          rw [List.forall_mem_cons, List.forall_mem_cons] at hall
          rw [Checker.checkExpr]
          refine hall.1.bind fun _ _ => hall.2.1.bind fun _ _ => ?_
          exact checkExprs_ofChildren hall.2.2
  | not child ih =>
      rw [Checker.checkExpr]
      exact ih.imp (Defect.Inside.under (List.mem_singleton_self child)) fun _ ha => ha
  | rule ref =>
      rw [Checker.checkExpr]
      exact (checkRule_ofLeaf hc ref).imp (fun d hd => ⟨_, .self, .leaf hd⟩) fun _ ha => ha
  | named tag name =>
      rw [Checker.checkExpr]
      split
      next => trivial
      next hno => exact ⟨_, .self, .unknown fun hmem => hno (List.contains_iff_mem.2 hmem)⟩
  | inline tag child ih =>
      rw [Checker.checkExpr]
      split
      next hself => exact ⟨_, .self, .redundant (isSelfStanding_eq_true hself)⟩
      next => exact ih.imp (Defect.Inside.under (List.mem_singleton_self child)) fun _ ha => ha

-- ========================================================== expressions

/-- Read an expression and check it, on its own. -/
def Checker.checkAlone (c : Checker) (names rules : List String) (raw : Value) :
    Except Defect (Expr RuleRef) := do
  let e ← Expr.parse c.limit raw
  c.checkExpr names rules e
  pure e

/-- The defect is one of an expression: of a node as it is written, where the
expression is not read, and else of a node as it is read. -/
def Defect.OfExpression (c : Checker) (names rules : List String) (raw : Value) (d : Defect) :
    Prop :=
  Expr.Misread raw c.limit c.limit.toNat d
    ∨ ∃ e, Expr.parse c.limit raw = .ok e ∧ d.Inside c names rules e

theorem checkAlone_ofExpression (hc : c.ruleset.Declared) (raw : Value) :
    Ends (Defect.OfExpression c names rules raw) (fun _ => True)
      (c.checkAlone names rules raw) := by
  unfold Checker.checkAlone
  cases hparse : Expr.parse c.limit raw with
  | error d => exact Or.inl (Expr.parse_misread hparse)
  | ok e =>
      have hends : Ends (Defect.Inside c names rules e) (fun _ => True)
          (c.checkExpr names rules e) := checkExpr_inside hc e
      exact (hends.imp (fun d hd => Or.inr ⟨e, hparse, hd⟩) fun _ ha => ha).bind
        fun _ _ => trivial

/-- All expressions pass on their own. -/
def Checker.PassAlone (c : Checker) (names rules : List String) (raws : Table Value)
    (es : Expressions RuleRef) : Prop :=
  List.Forall₂ (fun raw e => raw.1 = e.1 ∧ c.checkAlone names rules raw.2 = .ok e.2) raws es

theorem checkAlone_eq_ok {raw : Value} {e : Expr RuleRef} :
    c.checkAlone names rules raw = .ok e ↔
      Expr.parse c.limit raw = .ok e ∧ c.checkExpr names rules e = .ok () := by
  unfold Checker.checkAlone
  rw [Outcome.bind_eq_ok]
  constructor
  · intro h
    obtain ⟨e', he, h⟩ := h
    obtain ⟨hcheck, h⟩ := Outcome.andThen_eq_ok.1 h
    injection h with h
    rw [← h]
    exact ⟨he, hcheck⟩
  · intro h
    exact ⟨e, h.1, Outcome.andThen_eq_ok.2 ⟨h.2, rfl⟩⟩

theorem passAlone_iff {raws : Table Value} {es : Expressions RuleRef} :
    c.PassAlone names rules raws es ↔ c.checkNamed names rules raws = .ok es := by
  unfold Checker.PassAlone
  rw [checkNamed_iff]
  constructor
  · exact fun h => h.imp fun _ _ h => ⟨h.1, checkAlone_eq_ok.1 h.2⟩
  · exact fun h => h.imp fun _ _ h => ⟨h.1, checkAlone_eq_ok.2 h.2⟩

/-- Of expressions that do not all pass, the first that does not pass ends as it
does on its own, and the others are not asked. -/
theorem checkNamed_eq_error {raws : Table Value} {d : Defect}
    (h : c.checkNamed names rules raws = .error d) :
    ∃ before name raw after, raws = before ++ (name, raw) :: after
      ∧ (∀ x ∈ before, ∃ e, c.checkAlone names rules x.2 = .ok e)
      ∧ c.checkAlone names rules raw = .error d := by
  induction raws with
  | nil => cases h
  | cons first raws ih =>
      obtain ⟨name, raw⟩ := first
      have hfirst : c.checkNamed names rules ((name, raw) :: raws) = (do
          let e ← c.checkAlone names rules raw
          let rest ← c.checkNamed names rules raws
          pure ((name, e) :: rest)) := by
        rw [Checker.checkNamed, Checker.checkAlone]
        simp only [bind_assoc, pure_bind]
      rw [hfirst] at h
      cases halone : c.checkAlone names rules raw with
      | error d' =>
          rw [halone] at h
          injection h with h
          subst h
          exact ⟨[], name, raw, raws, rfl, fun x hx => absurd hx List.not_mem_nil, halone⟩
      | ok e =>
          rw [halone] at h
          cases hrest : c.checkNamed names rules raws with
          | ok es =>
              rw [hrest] at h
              cases h
          | error d' =>
              rw [hrest] at h
              injection h with h
              subst h
              obtain ⟨before, name', raw', after, rfl, hbefore, hraw⟩ := ih hrest
              refine ⟨(name, raw) :: before, name', raw', after, rfl, ?_, hraw⟩
              exact List.forall_mem_cons.2 ⟨⟨e, halone⟩, hbefore⟩

-- =========================================================== references

/-- The defect is one of what a document says, not of its text or of the
ruleset that it is for. -/
def Defect.OfContent : Defect → Prop
  | undecodable _ | notADocument _ | unreadable .. | ruleText .. => False
  | rulesetMismatch .. => False
  | _ => True

/-- The defect is one of the references between expressions. -/
def Defect.OfReferences : Defect → Prop
  | .cycle _ => True
  | .referencesTooDeep .. => True
  | _ => False

/-- The references between expressions have the defect: a path of distinct
names, each referring to the next, comes back to a name on it; or there is no
such path, and what a name stands for when every reference is followed is
higher than the limit. -/
inductive Defect.Among (c : Checker) (es : Expressions RuleRef) : Defect → Prop where
  | cycle {path : List String} {name : String} (nodup : path.Nodup)
      (declared : ∀ x ∈ path, x ∈ es.names) (comesBack : name ∈ path)
      (leads : (path ++ [name]).IsChain (RefersTo es)) : Among c es (.cycle (path ++ [name]))
  | tooDeep {name : String} {e t : Expr RuleRef} (noCircle : NoCircle es)
      (stands : es.at? name = some e) (expands : Expr.Expands es.at? e t)
      (h : c.limit < t.height) : Among c es (.referencesTooDeep name t.height c.limit)

theorem checkReferences_eq_error {es : Expressions RuleRef} {d : Defect}
    (h : c.checkReferences es = .error d) : d.OfReferences ∧ d.Among c es := by
  cases hgraph : (ReferenceGraph.ofExpressions es).order with
  | error p =>
      have horder : referenceOrder es = .error (.cycle p) := by
        rw [referenceOrder, hgraph]
        rfl
      rw [Checker.checkReferences, horder] at h
      injection h with h
      subst h
      obtain ⟨path, x, rfl, hroute, hx, hchain⟩ := ReferenceGraph.order_loop hgraph
      refine ⟨trivial, .cycle hroute.nodup ?_ hx (hchain.imp fun _ _ h => leads_iff.1 h)⟩
      rw [← names_ofExpressions]
      exact hroute.declared
  | ok done =>
      have hcircle : NoCircle es :=
        referenceOrder_succeeds_iff.1 ⟨done, referenceOrder_eq_ok.2 hgraph⟩
      obtain ⟨order, depths, heq, hmeas, -⟩ := hcircle.checkReferences_eq c
      rw [heq] at h
      obtain ⟨⟨name, depth⟩, hmem, hdeep, rfl⟩ := checkDepths_eq_error h
      obtain ⟨e, t, he, ht, hdepth⟩ :=
        hmeas.height name ((hmeas.declared name).1 (List.mem_map_of_mem hmem))
      rw [Table.at?_of_mem hmeas.nodup hmem] at hdepth
      injection hdepth with hdepth
      subst hdepth
      exact ⟨trivial, .tooDeep hcircle he ht hdeep⟩

-- ============================================================ documents

/-- An expression has no defect of its text, of a ruleset or of references on its
own. -/
theorem Defect.OfExpression.kind {raw : Value} {d : Defect}
    (h : d.OfExpression c names rules raw) : d.OfContent ∧ ¬ d.OfReferences := by
  rcases h with (⟨rfl, _⟩ | ⟨m, node, _, _, h⟩) | ⟨e, _, node, _, h⟩
  · exact ⟨trivial, fun h => h⟩
  · cases h <;> exact ⟨trivial, fun h => h⟩
  · cases h with
    | empty => exact ⟨trivial, fun h => h⟩
    | single sound => exact ⟨trivial, fun h => h⟩
    | redundant h => exact ⟨trivial, fun h => h⟩
    | unknown h => exact ⟨trivial, fun h => h⟩
    | leaf h =>
        cases h with
        | unregistered h => exact ⟨trivial, fun h => h⟩
        | undeclared registered h => exact ⟨trivial, fun h => h⟩
        | fields rule listed h => cases h <;> exact ⟨trivial, fun h => h⟩

section parts

variable {document : Value}

/-- An expression of a document has a leaf of a rule. -/
def Checker.Uses (c : Checker) (document : Value) (r : Rule) : Prop :=
  ∃ rules raws name raw e ref, c.checkDocument document = .ok (rules, raws)
    ∧ (name, raw) ∈ raws ∧ Expr.parse c.limit raw = .ok e ∧ Expr.Within (.rule ref) e
    ∧ c.ruleset.rule? ref.rule = some r

/-- What cannot be called is found where a leaf is of a rule with a field in the place of
an operation. -/
theorem Defect.OfExpression.uncallable {raw : Value} {field found : String}
    (h : (Defect.uncallable field found).OfExpression c names rules raw) :
    ∃ e ref r, Expr.parse c.limit raw = .ok e ∧ Expr.Within (.rule ref) e
      ∧ c.ruleset.rule? ref.rule = some r ∧ r.Overrides field := by
  rcases h with (⟨h, -⟩ | ⟨m, node, -, -, h⟩) | ⟨e, hparse, node, hnode, h⟩
  · cases h
  · cases h
  · cases h with
    | leaf h =>
        cases h with
        | fields rule listed h =>
            cases h with
            | uncallable h => exact ⟨e, _, _, hparse, hnode, rule, h⟩

end parts

/-- A document whose parts are in order is refused for what is the case. A
defect that is not one of references is the one that the first failing
expression ends in on its own, and it is a defect of that expression; a defect
of references is one that the references have, and all expressions pass on
their own. -/
theorem check_refused {document : Value} {raws : Table Value} {d : Defect}
    (hc : c.ruleset.Declared) (hdocument : c.checkDocument document = .ok (rules, raws))
    (h : c.check document = .error d) :
    (¬ d.OfReferences → ∃ before name raw after, raws = before ++ (name, raw) :: after
        ∧ (∀ x ∈ before, ∃ e, c.checkAlone raws.names rules x.2 = .ok e)
        ∧ c.checkAlone raws.names rules raw = .error d
        ∧ d.OfExpression c raws.names rules raw)
      ∧ (d.OfReferences → ∃ es, c.PassAlone raws.names rules raws es ∧ d.Among c es) := by
  have hcheck : c.check document = (do
      let es ← c.checkNamed raws.names rules raws
      c.checkReferences es
      pure ⟨c.ruleset.name, rules, es⟩) := by
    rw [Checker.check, hdocument]
    rfl
  rw [hcheck] at h
  cases hnamed : c.checkNamed raws.names rules raws with
  | error d' =>
      rw [hnamed] at h
      injection h with h
      subst h
      obtain ⟨before, name, raw, after, hraws, hbefore, hraw⟩ := checkNamed_eq_error hnamed
      have hreal : d'.OfExpression c raws.names rules raw := by
        have hends : Ends (Defect.OfExpression c raws.names rules raw) (fun _ => True)
            (c.checkAlone raws.names rules raw) := checkAlone_ofExpression hc raw
        rw [hraw] at hends
        exact hends
      exact ⟨fun _ => ⟨before, name, raw, after, hraws, hbefore, hraw, hreal⟩,
        fun hreferences => absurd hreferences hreal.kind.2⟩
  | ok es =>
      rw [hnamed] at h
      cases hreferences : c.checkReferences es with
      | ok _ =>
          change (c.checkReferences es >>= fun _ => pure _) = _ at h
          rw [hreferences] at h
          cases h
      | error d' =>
          change (c.checkReferences es >>= fun _ => pure _) = _ at h
          rw [hreferences] at h
          injection h with h
          subst h
          obtain ⟨hkind, hamong⟩ := checkReferences_eq_error hreferences
          exact ⟨fun hno => absurd hkind hno, fun _ => ⟨es, passAlone_iff.2 hnamed, hamong⟩⟩

/-- A document with a leaf under one name, and something else under another. -/
def besideDocument (raw : Value) : Value :=
  .object [("ruleset", .str "Fields"), ("rules", .texts ["Positive"]),
    ("expressions", .object [("main", fieldRef.toValue), ("deny", raw)])]

/-- A connective around the one reference to the leaf. -/
def loneNode : Expr RuleRef := .join .any [.named "expr" "main"]

/-- A reference that comes back to its own name. -/
def circularNode : Expr RuleRef := .not (.named "expr" "deny")

/-- Beside the leaf, the connective is refused for what it is on its own, and the
circle only with the references. -/
theorem beside_refused :
    (fieldChecker "x").ruleset.Declared
      ∧ (fieldChecker "x").check (besideDocument loneNode.toValue)
        = .error (.singleChild .any loneNode.toValue)
      ∧ (∃ raw, (fieldChecker "x").checkAlone ["main", "deny"] ["Positive"] raw
          = .error (.singleChild .any loneNode.toValue)
        ∧ Defect.OfExpression (fieldChecker "x") ["main", "deny"] ["Positive"] raw
          (.singleChild .any loneNode.toValue))
      ∧ (fieldChecker "x").check (besideDocument circularNode.toValue)
        = .error (.cycle ["deny", "deny"])
      ∧ ∃ es, Defect.Among (fieldChecker "x") es (.cycle ["deny", "deny"]) := by
  have hc := fieldChecker_declared "x" (by decide)
  have hparts : ∀ raw, (fieldChecker "x").checkDocument (besideDocument raw)
      = .ok (["Positive"], [("main", fieldRef.toValue), ("deny", raw)]) :=
    fun _ => rfl
  have hlone : (fieldChecker "x").check (besideDocument loneNode.toValue)
      = .error (.singleChild .any loneNode.toValue) := by with_unfolding_all rfl
  have hcircle : (fieldChecker "x").check (besideDocument circularNode.toValue)
      = .error (.cycle ["deny", "deny"]) := by with_unfolding_all rfl
  refine ⟨hc, hlone, ?_, hcircle, ?_⟩
  · obtain ⟨before, name, raw, after, -, -, halone, hreal⟩ :=
      (check_refused hc (hparts _) hlone).1 fun h => h
    exact ⟨raw, halone, hreal⟩
  · obtain ⟨es, -, hamong⟩ := (check_refused hc (hparts _) hcircle).2 trivial
    exact ⟨es, hamong⟩

end Verdict
