/-
What tools read of a ruleset, and what its checker accepts. A ruleset
describes itself as a document: its rules, and under each rule the fields with
their types and options. Whether a rule node is accepted can be told from that
document alone, except that a hidden field is listed like any other although
nothing can be bound to it.

# Vocabulary

- `RuleNode raw r entries`: the value is written as a rule node with the rule
  `r` and the entries, each of which has a name, a type and a value.
- `c.Accepts rules raw`: the node is read, and the leaf that is read passes.
- `FitsListed f v`: the value is one for a field that is listed as `f`.
- `Described I rules entries name fields`: the description `I` lists the rule
  and the fields under it, and the entries are one value that fits for each of
  these fields.
- `Hidden f`: the name of a listed field is one that nothing can be bound to.

# Main statements

- `filled_iff_pairs`: entries fill a rule when their names and types are those
  of its fields, in any order, and the values are taken.
- `fitsListed_iff`: what fits a declared field as it is listed is what it takes.
- `accepts_iff_described`: the description decides, for every rule node.
-/
import Mathlib.Data.List.Perm.Basic
import Verdict.Proofs.Policy.WellFormed
import Verdict.Proofs.Ruleset.History

namespace Verdict

-- ================================================================ listing

/-- A value is one for a field, as the field is listed. -/
def FitsListed (f v : Value) : Prop :=
  match f.get? "type" with
  | some (.str "string") => ∃ s, v = .str s
  | some (.str "integer") => ∃ n, v = .int n
  | some (.str "boolean") => ∃ b, v = .bool b
  | some (.str "string_array") => ∃ ss, v = .texts ss
  | some (.str "enum") =>
      ∃ options s, f.get? "options" = some (.texts options) ∧ s ∈ options ∧ v = .str s
  | _ => False

/-- What an entry, and a listed field, give as their name and type. -/
def shapeOf (v : Value) : Option Value × Option Value := (v.get? "name", v.get? "type")

/-- Nothing can be bound to a field of this name: records keep it out of reach, or they
call it. -/
def Hidden (f : Value) : Prop :=
  ∃ name, f.get? "name" = some (.str name)
    ∧ (name.toList.head? = some '_' ∨ name = Schema.rulesName ∨ name = Schema.finisherName)

/-- A description lists a rule, which is one of the document's, and fields under
it, for each of which the entries have one value that fits. -/
structure Described (I : Value) (rules : List String) (entries : List Value) (name : String)
    (fields : List Value) : Prop where
  registered : ∃ names, I.get? "rules" = some (.list names) ∧ .str name ∈ names
  declared : name ∈ rules
  lists : (I.get? "rule_definition").bind (·.get? name) = some (.list fields)
  shapes : (entries.map shapeOf).Perm (fields.map shapeOf)
  fits : ∀ entry ∈ entries, ∀ f ∈ fields, entry.get? "name" = f.get? "name" →
    ∀ v, entry.get? "value" = some v → FitsListed f v

section listed

variable {s : Ruleset} {spec : FieldSpec} {v : Value}

theorem shapeOf_toValue (spec : FieldSpec) :
    shapeOf spec.toValue = (some (.str spec.name), some (.str spec.kind.tag)) := by
  unfold shapeOf FieldSpec.toValue
  rw [Value.get?_object, Value.get?_object]
  rfl

theorem hidden_toValue : Hidden spec.toValue ↔ Schema.isBindable spec = false := by
  have hname : spec.toValue.get? "name" = some (.str spec.name) :=
    congrArg Prod.fst (shapeOf_toValue spec)
  unfold Hidden Schema.isBindable Schema.isHeld
  rw [hname]
  simp only [Option.some.injEq, Value.str.injEq, exists_eq_left', Bool.and_eq_false_iff,
    decide_eq_false_iff_not, not_not, ne_eq, or_assoc]

/-- The options of a choice are listed with it. -/
theorem options_toValue {options : List String} (h : spec.options = some options) :
    spec.toValue.get? "options" = some (.texts options) := by
  unfold FieldSpec.toValue
  rw [Value.get?_object, h]
  rfl

/-- What fits a declared field as it is listed is what it takes. -/
theorem fitsListed_iff (h : spec.Declared) : FitsListed spec.toValue v ↔ spec.kind.Takes v := by
  have htype : spec.toValue.get? "type" = some (.str spec.kind.tag) :=
    congrArg Prod.snd (shapeOf_toValue spec)
  unfold FitsListed
  rw [htype]
  cases hkind : spec.kind with
  | text => exact Iff.rfl
  | integer => exact Iff.rfl
  | boolean => exact Iff.rfl
  | textList => exact Iff.rfl
  | choice c =>
      show (∃ options s, spec.toValue.get? "options" = some (.texts options) ∧ s ∈ options
        ∧ v = .str s) ↔ ∃ m ∈ c.declared, v = .str m.2
      rw [options_toValue (h.options_eq hkind)]
      constructor
      · intro hfits
        obtain ⟨options, t, hoptions, ht, rfl⟩ := hfits
        have hvalues : c.options.map Value.str = options.map Value.str :=
          Value.list.inj (Option.some.inj hoptions)
        have hinj : Function.Injective Value.str := fun _ _ h => Value.str.inj h
        rw [← List.map_injective_iff.2 hinj hvalues] at ht
        obtain ⟨m, hm, rfl⟩ := List.mem_map.1 ht
        obtain ⟨n, hn, heq⟩ := (FieldKind.mem_membersOf c.declared).1 ⟨m, hm, rfl⟩
        exact ⟨n, hn, by rw [heq]⟩
      · intro htakes
        obtain ⟨m, hm, rfl⟩ := htakes
        obtain ⟨n, hn, heq⟩ := (FieldKind.mem_membersOf c.declared).2 ⟨m, hm, rfl⟩
        exact ⟨c.options, m.2, rfl, List.mem_map.2 ⟨n, hn, heq⟩, rfl⟩

theorem get?_rules (s : Ruleset) : s.toValue.get? "rules" = some (.texts s.ruleNames) := by
  unfold Ruleset.toValue
  rw [Value.get?_object]
  rfl

theorem get?_definition (s : Ruleset) : s.toValue.get? "rule_definition"
    = some (.object (s.rules.map fun r => (r.1, r.2.schema.toValue))) := by
  unfold Ruleset.toValue
  rw [Value.get?_object]
  rfl

/-- Under each rule the fields of its schema are listed, and under no other
name anything. -/
theorem lists_iff {name : String} {fields : List Value} :
    (s.toValue.get? "rule_definition").bind (·.get? name) = some (.list fields) ↔
      ∃ r, s.rule? name = some r ∧ fields = r.schema.specs.map (·.toValue) := by
  rw [get?_definition, Option.bind_some, Value.get?_object,
    Table.at?_map (fun r : Rule => r.schema.toValue)]
  unfold Ruleset.rule?
  rw [Option.map_eq_some_iff]
  refine exists_congr fun r => and_congr_right fun _ => ?_
  show Value.list (r.schema.specs.map (·.toValue)) = .list fields ↔ _
  rw [Value.list.injEq, eq_comm]

theorem registered_iff {name : String} :
    (∃ names, s.toValue.get? "rules" = some (.list names) ∧ .str name ∈ names) ↔
      name ∈ s.ruleNames := by
  rw [get?_rules]
  constructor
  · intro h
    obtain ⟨names, hnames, hmem⟩ := h
    rw [← Value.list.inj (Option.some.inj hnames)] at hmem
    obtain ⟨other, hother, heq⟩ := List.mem_map.1 hmem
    rwa [← Value.str.inj heq]
  · exact fun h => ⟨_, rfl, List.mem_map_of_mem h⟩

end listed

-- ================================================================ filling

/-- Entries fill a rule when their names and types are those of its fields, in
any order, and each field takes its value. -/
theorem filled_iff_pairs {r : Rule} {fields : List FieldEntry} :
    r.Filled fields ↔
      (fields.map fun entry => (entry.name, entry.type)).Perm
          (r.schema.specs.map fun spec => (spec.name, spec.kind.tag))
        ∧ ∀ entry ∈ fields, ∀ spec ∈ r.schema.specs, spec.name = entry.name →
          spec.kind.Takes entry.value := by
  constructor
  · intro h
    refine ⟨?_, fun entry hentry spec hspec hname => (h.each entry hentry spec hspec hname).2⟩
    have hleft : (fields.map fun entry => (entry.name, entry.type)).Nodup :=
      List.Nodup.of_map Prod.fst (by
        rw [List.map_map]
        exact @Rule.Filled.nodup r ⟨r.name, fields⟩ h)
    have hright : (r.schema.specs.map fun spec => (spec.name, spec.kind.tag)).Nodup :=
      List.Nodup.of_map Prod.fst (by
        rw [List.map_map]
        exact r.schema.names_nodup)
    -- a name stands once on either side, so the tags decide nothing but membership
    refine (List.perm_ext_iff_of_nodup hleft hright).2 fun pair => ?_
    constructor
    · intro hpair
      obtain ⟨entry, hentry, rfl⟩ := List.mem_map.1 hpair
      obtain ⟨spec, hspec, hname, htag⟩ := @Rule.Filled.tags r ⟨r.name, fields⟩ h entry hentry
      exact List.mem_map.2 ⟨spec, hspec, by rw [hname, htag]⟩
    · intro hpair
      obtain ⟨spec, hspec, rfl⟩ := List.mem_map.1 hpair
      have hname : spec.name ∈ fields.map (·.name) :=
        h.names.mem_iff.2 (List.mem_map_of_mem hspec)
      obtain ⟨entry, hentry, hname⟩ := List.mem_map.1 hname
      have htag := (h.each entry hentry spec hspec hname.symm).1
      exact List.mem_map.2 ⟨entry, hentry, by rw [hname, htag]⟩
  · intro h
    obtain ⟨hperm, htakes⟩ := h
    refine ⟨?_, fun entry hentry spec hspec hname => ⟨?_, htakes entry hentry spec hspec hname⟩⟩
    · have hnames := hperm.map Prod.fst
      rw [List.map_map, List.map_map] at hnames
      exact hnames
    · obtain ⟨other, hother, heq⟩ :=
        List.mem_map.1 (hperm.mem_iff.1 (List.mem_map_of_mem hentry))
      injection heq with hother_name htag
      rw [Schema.eq_of_name hspec hother (hname.trans hother_name.symm)]
      exact htag

-- ================================================================== nodes

/-- A value is written as a rule node: a mapping of a type, a rule and a list of
entries, each a mapping of a name, a type and a value. -/
structure RuleNode (raw r : Value) (entries : List Value) : Prop where
  keys : ∃ es, raw = .map es ∧ (es.map (·.1)).Perm [.str "type", .str "rule", .str "fields"]
  type : raw.get? "type" = some (.str "rule")
  rule : raw.get? "rule" = some r
  fields : raw.get? "fields" = some (.list entries)
  each : ∀ entry ∈ entries, ∃ es, entry = .map es
    ∧ (es.map (·.1)).Perm [.str "name", .str "type", .str "value"]

/-- What an entry gives is what the parser takes from it. -/
def Gives (entry : Value) (field : FieldEntry) : Prop :=
  entry.get? "name" = some (.str field.name) ∧ entry.get? "type" = some (.str field.type)
    ∧ entry.get? "value" = some field.value

/-- A node is read as a leaf, and the leaf passes. -/
def Checker.Accepts (c : Checker) (rules : List String) (raw : Value) : Prop :=
  ∃ ref, Expr.parse c.limit raw = .ok (.rule ref) ∧ c.checkRule rules ref = .ok ()

namespace RuleNode

variable {raw r : Value} {entries : List Value}

theorem discriminants_eq (h : RuleNode raw r entries) (hraw : raw.IsDocument) :
    Expr.discriminants raw = [.rule] := by
  obtain ⟨es, hes, hperm⟩ := h.keys
  have hkey : ∀ key v, raw.Holds key v → key ∈ ["type", "rule", "fields"] := by
    intro key v hholds
    obtain ⟨es', hes', hmem⟩ := hholds
    rw [hes] at hes'
    injection hes' with hes'
    have hstr : Value.str key ∈ es.map (·.1) := hes' ▸ List.mem_map_of_mem (f := Prod.fst) hmem
    simpa using hperm.mem_iff.1 hstr
  rw [Expr.discriminants_eq_singleton hraw]
  intro d
  cases d with
  | rule => exact iff_of_true ((hraw.get?_iff).1 h.type) rfl
  | connective k =>
      refine iff_of_false (fun hmarked => ?_) Discriminant.noConfusion
      obtain ⟨v, hv⟩ := hmarked
      have hmem := hkey _ v hv
      cases k <;> revert hmem <;> decide
  | not =>
      refine iff_of_false (fun hmarked => ?_) Discriminant.noConfusion
      obtain ⟨v, hv⟩ := hmarked
      exact absurd (hkey _ v hv) (by decide)
  | expr =>
      refine iff_of_false (fun hmarked => ?_) Discriminant.noConfusion
      obtain ⟨v, hv⟩ := hmarked
      exact absurd (hkey _ v hv) (by decide)

/-- A rule node is read as a leaf with its rule and its entries. -/
theorem parse_iff (h : RuleNode raw r entries) (hraw : raw.IsDocument) {limit : Int}
    (hlimit : 1 ≤ limit) {ref : RuleRef} :
    Expr.parse limit raw = .ok (.rule ref) ↔
      r = .str ref.rule ∧ ref.rule ≠ "" ∧ List.Forall₂ Gives entries ref.fields := by
  obtain ⟨n, hn⟩ : ∃ n, limit.toNat = n + 1 := ⟨limit.toNat - 1, by omega⟩
  obtain ⟨es, hes, -⟩ := h.keys
  have hmap : raw.isMap = true := by
    rw [hes]
    rfl
  unfold Expr.parse
  rw [hn, Expr.parseLevels_one hmap (h.discriminants_eq hraw)]
  show (Expr.parseRule raw).map Expr.rule = .ok (.rule ref) ↔ _
  have hrule : (Expr.parseRule raw).map Expr.rule = .ok (.rule ref) ↔
      Expr.parseRule raw = .ok ref := by
    rw [Outcome.map_eq_ok]
    constructor
    · intro h
      obtain ⟨ref', hparse, heq⟩ := h
      injection heq with heq
      rw [← heq]
      exact hparse
    · exact fun h => ⟨ref, h, rfl⟩
  rw [hrule, Expr.parseRule_eq_ok, h.rule, h.fields, Option.some.injEq]
  refine and_congr_right fun _ => and_congr_right fun _ => ?_
  constructor
  · intro hfields
    rcases hfields with ⟨hnone, -⟩ | ⟨found, items, hfound, hitems, hall⟩
    · cases hnone
    · rw [← Option.some.inj hfound] at hitems
      injection hitems with hitems
      subst hitems
      exact (Outcome.mapM_eq_ok.1 hall).imp fun _ _ h => Expr.parseField_eq_ok.1 h
  · intro hall
    refine Or.inr ⟨_, entries, rfl, rfl, Outcome.mapM_eq_ok.2 ?_⟩
    exact hall.imp fun _ _ h => Expr.parseField_eq_ok.2 h

/-- Entries whose names and types are texts can be read. -/
theorem exists_fields (h : RuleNode raw r entries)
    (htexts : ∀ entry ∈ entries, ∃ name type, shapeOf entry
      = (some (.str name), some (.str type))) :
    ∃ fields, List.Forall₂ Gives entries fields := by
  refine Pairs.exists_of_forall fun entry hentry => ?_
  obtain ⟨name, type, hshape⟩ := htexts entry hentry
  injection hshape with hname htype
  obtain ⟨es, hes, hperm⟩ := h.each entry hentry
  have hvalue : Value.str "value" ∈ es.map (·.1) := hperm.mem_iff.2 (by simp)
  obtain ⟨⟨key, v⟩, hmem, hkey⟩ := List.mem_map.1 hvalue
  dsimp only at hkey
  subst hkey
  have hnd : (es.map (·.1)).Nodup := hperm.nodup_iff.2 (by simp)
  have hget : entry.get? "value" = some v := by
    rw [hes]
    exact (Value.lookup_iff_mem hnd).2 hmem
  exact ⟨⟨name, type, v⟩, hname, htype, hget⟩

end RuleNode

-- ============================================================ acceptance

section acceptance

variable {c : Checker} {rules : List String} {raw r : Value} {entries : List Value}

/-- Entries that were read have the names and types of their fields. -/
theorem shapes_eq {fields : List FieldEntry}
    (h : List.Forall₂ Gives entries fields) :
    entries.map shapeOf
      = (fields.map fun field => (field.name, field.type)).map
        fun pair => (some (Value.str pair.1), some (Value.str pair.2)) := by
  rw [List.map_map]
  exact Pairs.map_eq h fun entry field hread => by
    unfold shapeOf
    rw [hread.1, hread.2.1]
    rfl

/-- What was read fills a rule exactly when it is as the rule's fields are
listed. -/
theorem filled_iff_listed {rule : Rule} (hdecl : ∀ spec ∈ rule.schema.specs, spec.Declared)
    {fields : List FieldEntry}
    (h : List.Forall₂ Gives entries fields) :
    rule.Filled fields ↔
      (entries.map shapeOf).Perm ((rule.schema.specs.map (·.toValue)).map shapeOf)
        ∧ ∀ entry ∈ entries, ∀ f ∈ rule.schema.specs.map (·.toValue),
          entry.get? "name" = f.get? "name" → ∀ v, entry.get? "value" = some v →
            FitsListed f v := by
  have hinj : Function.Injective fun pair : String × String =>
      (some (Value.str pair.1), some (Value.str pair.2)) := by
    intro a b hab
    injection hab with hname htype
    exact Prod.ext (Value.str.inj (Option.some.inj hname))
      (Value.str.inj (Option.some.inj htype))
  have hlisted : (rule.schema.specs.map (·.toValue)).map shapeOf
      = (rule.schema.specs.map fun spec => (spec.name, spec.kind.tag)).map
        fun pair => (some (Value.str pair.1), some (Value.str pair.2)) := by
    rw [List.map_map, List.map_map]
    exact List.map_congr_left fun spec _ => shapeOf_toValue spec
  have hspecname : ∀ spec : FieldSpec, spec.toValue.get? "name" = some (.str spec.name) :=
    fun spec => congrArg Prod.fst (shapeOf_toValue spec)
  rw [filled_iff_pairs, shapes_eq h, hlisted, List.map_perm_map_iff hinj]
  refine and_congr_right fun _ => ?_
  constructor
  · intro htakes entry hentry f hf hname v hv
    obtain ⟨spec, hspec, rfl⟩ := List.mem_map.1 hf
    obtain ⟨field, hfield, hread⟩ := Pairs.of_mem_left h hentry
    rw [hread.1, hspecname] at hname
    rw [hread.2.2] at hv
    rw [fitsListed_iff (hdecl spec hspec), ← Option.some.inj hv]
    exact htakes field hfield spec hspec (Value.str.inj (Option.some.inj hname)).symm
  · intro hfits field hfield spec hspec hname
    obtain ⟨entry, hentry, hread⟩ := Pairs.of_mem_right h hfield
    rw [← fitsListed_iff (hdecl spec hspec)]
    refine hfits entry hentry _ (List.mem_map_of_mem hspec) ?_ _ hread.2.2
    rw [hread.1, hspecname, hname]

/-- The document in which a ruleset describes itself lists its rules in order and
each once, with definitions for them and no others; and it decides which rule
nodes are accepted, up to fields that nothing can be bound to. -/
theorem accepts_iff_described (hkept : c.ruleset.Kept) (hdecl : c.ruleset.Declared)
    (hnames : ∀ name ∈ c.ruleset.ruleNames, name ≠ "") (hlimit : 1 ≤ c.limit)
    (hraw : raw.IsDocument) (hnode : RuleNode raw r entries) :
    (∃ names definitions, c.ruleset.toValue.get? "rules" = some (.texts names)
        ∧ c.ruleset.toValue.get? "rule_definition" = some (.map definitions)
        ∧ definitions.map (·.1) = names.map .str
        ∧ names = c.ruleset.ruleNames ∧ names.Nodup)
      ∧ (c.Accepts rules raw ↔ ∃ name fields, r = .str name
        ∧ Described c.ruleset.toValue rules entries name fields ∧ ∀ f ∈ fields, ¬ Hidden f) := by
  refine ⟨⟨c.ruleset.ruleNames, _, get?_rules _, get?_definition _, ?_, rfl, hkept.nodup⟩, ?_⟩
  · unfold Ruleset.ruleNames Table.names
    rw [List.map_map, List.map_map, List.map_map]
    rfl
  · have hvalues : ∀ {fields : List FieldEntry},
        List.Forall₂ Gives entries fields →
        ∀ field ∈ fields, field.value.IsDocument := by
      intro fields hread field hfield
      obtain ⟨entry, hentry, -, -, hvalue⟩ := Pairs.of_mem_right hread hfield
      have hdoc : entry.IsDocument :=
        (hraw.held ((hraw.get?_iff).1 hnode.fields)).item hentry
      exact hdoc.held ((hdoc.get?_iff).1 hvalue)
    have hbindable : ∀ rule : Rule, rule.Bindable ↔
        ∀ f ∈ rule.schema.specs.map (·.toValue), ¬ Hidden f := by
      intro rule
      rw [List.forall_mem_map]
      refine forall₂_congr fun spec _ => ?_
      rw [hidden_toValue, Bool.not_eq_false]
    constructor
    · intro h
      obtain ⟨ref, hparse, hcheck⟩ := h
      obtain ⟨hrule, -, hread⟩ := (hnode.parse_iff hraw hlimit).1 hparse
      obtain ⟨⟨rule, hat, hmem, hfilled⟩, hall⟩ := (checkRule_iff hdecl (hvalues hread)).1 hcheck
      obtain ⟨hshapes, hfits⟩ := (filled_iff_listed (hdecl _ rule hat) hread).1 hfilled
      refine ⟨ref.rule, _, hrule, ⟨?_, hmem, lists_iff.2 ⟨rule, hat, rfl⟩, hshapes, hfits⟩,
        (hbindable rule).1 (hall rule hat)⟩
      exact registered_iff.2 (Table.mem_names_of_at? hat)
    · intro h
      obtain ⟨name, fields, rfl, hdescribed, hhidden⟩ := h
      obtain ⟨rule, hat, rfl⟩ := lists_iff.1 hdescribed.lists
      have htexts : ∀ entry ∈ entries, ∃ name type, shapeOf entry
          = (some (.str name), some (.str type)) := by
        intro entry hentry
        obtain ⟨f, hf, heq⟩ := List.mem_map.1
          (hdescribed.shapes.mem_iff.1 (List.mem_map_of_mem (f := shapeOf) hentry))
        obtain ⟨spec, -, rfl⟩ := List.mem_map.1 hf
        exact ⟨spec.name, spec.kind.tag, by rw [← heq, shapeOf_toValue]⟩
      obtain ⟨read, hread⟩ := hnode.exists_fields htexts
      have hfilled : rule.Filled read := (filled_iff_listed (hdecl _ rule hat) hread).2
        ⟨hdescribed.shapes, hdescribed.fits⟩
      have hne : name ≠ "" := hnames name (Table.mem_names_of_at? hat)
      refine ⟨⟨name, read⟩, (hnode.parse_iff hraw hlimit).2 ⟨rfl, hne, hread⟩, ?_⟩
      refine (checkRule_iff hdecl (hvalues hread)).2 ⟨⟨rule, hat, hdescribed.declared, hfilled⟩,
        fun other hother => ?_⟩
      obtain rfl : rule = other := Option.some.inj (hat.symm.trans hother)
      exact (hbindable rule).2 hhidden

end acceptance

-- ========================================================== hidden fields

/-- A rule node with one entry, for the field of the rule with one field. -/
def leafNode (name : String) : Value :=
  RuleRef.toValue ⟨"Positive", [⟨name, "integer", .int 1⟩]⟩

/-- Its one entry. -/
def leafEntry (name : String) : Value := FieldEntry.toValue ⟨name, "integer", .int 1⟩

theorem leafNode_isDocument (name : String) : (leafNode name).IsDocument := by
  have hentry : (leafEntry name).IsDocument := by
    refine .object (by simp) ?_
    simp [Value.IsDocument.str, Value.IsDocument.int]
  refine .object (by simp) ?_
  simp [Value.IsDocument.str]
  exact .list fun v hv => List.mem_singleton.1 hv ▸ hentry

theorem leafNode_ruleNode (name : String) :
    RuleNode (leafNode name) (.str "Positive") [leafEntry name] where
  keys := ⟨_, rfl, .refl _⟩
  type := rfl
  rule := rfl
  fields := rfl
  each := by
    intro entry hentry
    rw [List.mem_singleton.1 hentry]
    exact ⟨_, rfl, .refl _⟩

theorem leafNode_described (name : String) :
    Described (fieldChecker name).ruleset.toValue ["Positive"] [leafEntry name] "Positive"
      [FieldSpec.toValue ⟨name, .integer, name, none⟩] where
  registered := registered_iff.2 (List.mem_singleton_self _)
  declared := List.mem_singleton_self _
  lists := lists_iff.2 ⟨fieldRule name, rfl, rfl⟩
  shapes := .refl _
  fits := by
    intro entry hentry f hf _ v hv
    rw [List.mem_singleton.1 hentry] at hv
    rw [List.mem_singleton.1 hf]
    exact ⟨1, (Option.some.inj hv).symm⟩

theorem fieldRuleset_kept (name : String) : (fieldChecker name).ruleset.Kept where
  names := rfl
  nodup := List.nodup_singleton _
  uniform := by
    intro sig hsig
    refine ⟨List.cons_ne_nil _ _, fun r hr => ?_⟩
    rw [List.mem_singleton.1 hr]
    exact Option.some.inj hsig

/-- A node for a field with a plain name is accepted. -/
theorem leafNode_accepted :
    (fieldChecker "x").ruleset.Kept ∧ (fieldChecker "x").ruleset.Declared
      ∧ (leafNode "x").IsDocument
      ∧ RuleNode (leafNode "x") (.str "Positive") [leafEntry "x"]
      ∧ (fieldChecker "x").Accepts ["Positive"] (leafNode "x") := by
  have hkept := fieldRuleset_kept "x"
  have hdecl := fieldChecker_declared "x" (by decide)
  have hdoc := leafNode_isDocument "x"
  have hnode := leafNode_ruleNode "x"
  have hnames : ∀ name ∈ (fieldChecker "x").ruleset.ruleNames, name ≠ "" := by
    intro name hname
    rw [List.mem_singleton.1 hname]
    decide
  refine ⟨hkept, hdecl, hdoc, hnode, ?_⟩
  refine (accepts_iff_described hkept hdecl hnames (by decide) hdoc hnode).2.2
    ⟨"Positive", _, rfl, leafNode_described "x", fun f hf hhidden => ?_⟩
  rw [List.mem_singleton.1 hf, hidden_toValue] at hhidden
  exact absurd hhidden (by decide)

/-- A field whose name begins with an underscore is described like any other, and
a node that is as it is described is refused. -/
theorem hiddenNode_refused :
    (fieldChecker "_x").ruleset.Kept ∧ (fieldChecker "_x").ruleset.Declared
      ∧ (∀ name ∈ (fieldChecker "_x").ruleset.ruleNames, name ≠ "")
      ∧ (leafNode "_x").IsDocument
      ∧ RuleNode (leafNode "_x") (.str "Positive") [leafEntry "_x"]
      ∧ (∃ fields, Described (fieldChecker "_x").ruleset.toValue ["Positive"] [leafEntry "_x"]
        "Positive" fields)
      ∧ ¬ (fieldChecker "_x").Accepts ["Positive"] (leafNode "_x") := by
  refine ⟨fieldRuleset_kept "_x", fieldChecker_declared "_x" (by decide), fun name hname => ?_,
    leafNode_isDocument "_x", leafNode_ruleNode "_x", ⟨_, leafNode_described "_x"⟩, ?_⟩
  · rw [List.mem_singleton.1 hname]
    decide
  · intro h
    obtain ⟨ref, hparse, hcheck⟩ := h
    have hread : Expr.parse Expr.defaultDepth (leafNode "_x")
        = .ok (.rule ⟨"Positive", [⟨"_x", "integer", .int 1⟩]⟩) := by with_unfolding_all rfl
    have href := Expr.rule.inj (Except.ok.inj (hread.symm.trans hparse))
    have hrefused : (fieldChecker "_x").checkRule ["Positive"]
        ⟨"Positive", [⟨"_x", "integer", .int 1⟩]⟩
          = .error (.fieldValues "Positive" [⟨[.name "_x"], .undeclared⟩]) := rfl
    rw [← href, hrefused] at hcheck
    cases hcheck

end Verdict
