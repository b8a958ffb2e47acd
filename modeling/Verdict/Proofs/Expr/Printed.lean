/-
Printing and reading expressions. What an expression prints is read as that
expression again, at the same depth: the kinds of nodes share keys and tags,
so a printed node has to show the mark of its own kind and of no other.

The other way round a value that is read loses what its kind does not print:
keys that are not looked at, and the order of the others. A value without such
keys is printed again as it was.

# Vocabulary

- `d.Legible`: the node `d` prints the mark of its own kind alone. A leaf
  names a rule, and no reference has the tag of leaves.
- `v.HasKeys keys`: `v` is a mapping with these keys, in any order.
- `Canonical raw`: the nodes of `raw` and the entries of its leaves have the
  keys that printing gives them.
- `Alike v w`: `v` and `w` are equal as mappings are, in whatever order they
  list their entries.

# Main statements

- `parseLevels_toValue`: an expression of legible nodes is read back where
  the levels suffice.
- `legible_of_parseLevels`: whatever is read has legible nodes.
- `canonical_toValue`: printing writes canonical values.
- `parse_toValue`: reading what a read expression prints gives it again, and
  what it prints is the value that it was read from, if that was canonical.
-/
import Verdict.Proofs.Expr.Nodes
import Verdict.Proofs.Expr.Parse
import Verdict.Proofs.Pairs
import Verdict.Proofs.Value.Document

namespace Verdict

-- =============================================================== values

namespace Value

variable {v w : Value} {key : String} {keys : List String}

/-- A value is a mapping with just these keys. -/
def HasKeys (v : Value) (keys : List String) : Prop :=
  ∃ entries, v.unrolled = .map entries ∧ (entries.map (·.1)).Perm (keys.map .str)

/-- Two values are equal, where a mapping equals another that has the same
keys and equal values under them. -/
inductive Alike : Value → Value → Prop where
  | refl (v : Value) : Alike v v
  | list {v : Value} {items others : List Value} (hv : v.unrolled = .list others)
      (h : List.Forall₂ Alike items others) : Alike (.list items) v
  | map {v : Value} {entries others : List (Value × Value)} (hv : v.unrolled = .map others)
      (hkeys : (entries.map (·.1)).Nodup)
      (hperm : (entries.map (·.1)).Perm (others.map (·.1)))
      (h : ∀ k a b, (k, a) ∈ entries → (k, b) ∈ others → Alike a b) :
      Alike (.map entries) v

theorem nodup_str (h : keys.Nodup) : (keys.map Value.str).Nodup :=
  List.Nodup.map (fun s t h => by injection h) h

theorem HasKeys.exists_get? (hv : v.HasKeys keys) (hnodup : keys.Nodup) (h : key ∈ keys) :
    ∃ w, v.get? key = some w := by
  obtain ⟨entries, hv, hperm⟩ := hv
  have hmem : Value.str key ∈ entries.map (·.1) :=
    hperm.symm.subset (List.mem_map_of_mem (f := Value.str) h)
  obtain ⟨⟨k, w⟩, hentry, rfl⟩ := List.mem_map.1 hmem
  exact ⟨w, get?_of_mem hv (hperm.nodup_iff.2 (nodup_str hnodup)) hentry⟩

theorem HasKeys.mem_of_get? (h : v.HasKeys keys) (hget : v.get? key = some w) : key ∈ keys := by
  obtain ⟨entries, hv, hperm⟩ := h
  unfold get? at hget
  rw [hv] at hget
  have hmem := List.mem_map_of_mem (f := Prod.fst) (mem_of_lookup hget)
  obtain ⟨s, hs, heq⟩ := List.mem_map.1 (hperm.subset hmem)
  injection heq with heq
  rwa [← heq]

theorem hasKeys_object {fields : List (String × Value)} (h : (fields.map (·.1)).Perm keys) :
    (object fields).HasKeys keys := by
  refine ⟨_, rfl, ?_⟩
  have hmap := h.map Value.str
  rw [List.map_map] at hmap
  rwa [List.map_map]

/-- A mapping with text keys equals a value with those keys if each of its
values equals what the value has under the key. -/
theorem alike_object {fields : List (String × Value)} (hnodup : (fields.map (·.1)).Nodup)
    (hkeys : v.HasKeys (fields.map (·.1)))
    (h : ∀ field ∈ fields, ∃ w, v.get? field.1 = some w ∧ Alike field.2 w) :
    Alike (object fields) v := by
  obtain ⟨others, hv, hperm⟩ := hkeys
  have hfst : (fields.map fun e => (Value.str e.1, e.2)).map (·.1)
      = (fields.map (·.1)).map .str := by
    rw [List.map_map, List.map_map]
    rfl
  have hdistinct : ((fields.map (·.1)).map Value.str).Nodup := nodup_str hnodup
  refine .map hv (hfst ▸ hdistinct) (hfst ▸ hperm.symm) fun k a b ha hb => ?_
  obtain ⟨⟨key, a'⟩, hfield, heq⟩ := List.mem_map.1 ha
  injection heq with hk hvalue
  subst hk hvalue
  obtain ⟨w, hw, halike⟩ := h (key, a') hfield
  -- no key of the value stands twice, so what is read there is what is meant
  rw [get?_of_mem hv (hperm.nodup_iff.2 hdistinct) hb] at hw
  rwa [Option.some.inj hw]

theorem alike_singleton {a : Value} (hkeys : v.HasKeys [key]) (hget : v.get? key = some w)
    (h : Alike a w) : Alike (object [(key, a)]) v := by
  refine alike_object (List.nodup_singleton key) hkeys fun field hfield => ?_
  rw [List.mem_singleton.1 hfield]
  exact ⟨w, hget, h⟩

end Value

namespace Expr

variable {limit : Int} {n : Nat} {raw : Value} {e : Expr RuleRef} {d : Discriminant}

-- ============================================================ the marks

/-- A node prints the mark of its own kind and no other. -/
def Legible : Expr RuleRef → Prop
  | .rule ref => ref.rule ≠ ""
  | .named tag _ => tag ≠ "rule"
  | .inline tag _ => tag ≠ "rule"
  | _ => True

/-- The kind of a node. -/
def discriminant : Expr RuleRef → Discriminant
  | .join c _ => .connective c
  | .not _ => .not
  | .rule _ => .rule
  | .named _ _ => .expr
  | .inline _ _ => .expr

theorem discriminants_toValue (h : e.Legible) : discriminants e.toValue = [e.discriminant] := by
  unfold discriminants hasDiscriminant isRuleNode Value.hasKey toValue
  cases e with
  | join c es => cases c <;> simp [toValueWith, Connective.key, Table.at?, discriminant]
  | not e => simp [toValueWith, Connective.key, Table.at?, discriminant]
  | rule ref =>
      simp [toValueWith, RuleRef.toValue, Connective.key, Table.at?, discriminant, Value.text?]
  | named tag name =>
      have htag : tag ≠ "rule" := h
      simp [toValueWith, Connective.key, Table.at?, discriminant, Value.text?, htag]
  | inline tag e =>
      have htag : tag ≠ "rule" := h
      simp [toValueWith, Connective.key, Table.at?, discriminant, Value.text?, htag]

theorem parseRule_toValue {ref : RuleRef} (h : ref.rule ≠ "") :
    parseRule ref.toValue = .ok ref := by
  have hrule : ref.toValue.get? "rule" = some (.str ref.rule) := by
    simp [RuleRef.toValue, Table.at?]
  have hfields : ref.toValue.get? "fields" = some (.list (ref.fields.map FieldEntry.toValue)) := by
    simp [RuleRef.toValue, Table.at?]
  refine parseRule_eq_ok.2 ⟨hrule, h, Or.inr ⟨_, _, hfields, rfl, ?_⟩⟩
  rw [Outcome.mapM_eq_ok, List.forall₂_map_left_iff, List.forall₂_same]
  intro entry _
  refine parseField_eq_ok.2 ⟨?_, ?_, ?_⟩ <;> simp [FieldEntry.toValue, Table.at?]

/-- A printed node is read by the mark of its kind, once its children are read
back. -/
theorem parseKind_toValue (h : e.Legible)
    (hchildren : ∀ child ∈ e.children, parseLevels limit n child.toValue = .ok child) :
    parseKind limit n e.toValue e.discriminant = .ok e := by
  cases e with
  | join c es =>
      refine parseKind_connective_eq_ok.2 ⟨.list (es.map toValue), _, es, ?_, rfl, ?_, rfl⟩
      · simp [toValue, toValueWith, toValuesWith_eq, Table.at?]
      · rw [Outcome.mapM_eq_ok, List.forall₂_map_left_iff, List.forall₂_same]
        exact hchildren
  | not e =>
      refine parseKind_not_eq_ok.2 ⟨e.toValue, e, ?_, hchildren e (List.mem_cons_self ..), rfl⟩
      simp [toValue, toValueWith, Table.at?]
  | rule ref => exact Outcome.map_eq_ok.2 ⟨ref, parseRule_toValue h, rfl⟩
  | named tag name =>
      refine parseKind_expr_eq_ok.2 ⟨tag, parseTag_eq_ok.2 (Or.inr ?_), Or.inl ⟨name, ?_, rfl⟩⟩
      · simp [toValue, toValueWith, Table.at?]
      · simp [toValue, toValueWith, Table.at?]
  | inline tag e =>
      refine parseKind_expr_eq_ok.2 ⟨tag, parseTag_eq_ok.2 (Or.inr ?_),
        Or.inr ⟨e.toValue, e, ?_, hchildren e (List.mem_cons_self ..), rfl⟩⟩
      · simp [toValue, toValueWith, Table.at?]
      · simp [toValue, toValueWith, Table.at?]

/-- What an expression of legible nodes prints is read as that expression, as
soon as there are levels enough for its height. -/
theorem parseLevels_toValue (h : ∀ d, Within d e → d.Legible) (hle : e.height ≤ n) :
    parseLevels limit n e.toValue = .ok e := by
  induction e using byChildren generalizing n with
  | node e ih =>
      -- a level is spent on each node on the way down, as in the height
      rw [height_eq] at hle
      cases n with
      | zero => omega
      | succ n =>
          have hlow : heights e.children ≤ n := by omega
          have hmap : e.toValue.isMap = true := by cases e <;> rfl
          refine parseLevels_succ_eq_ok.2 ⟨hmap, _, discriminants_toValue (h e .self), ?_⟩
          refine parseKind_toValue (h e .self) fun child hchild => ?_
          exact ih child hchild (fun d hd => h d (.under hchild hd))
            (heights_le_iff.1 hlow child hchild)

-- ========================================================= what is read

/-- A node that is read is legible, and its children were read with a level
less. -/
theorem node_of_parseLevels (h : parseLevels limit (n + 1) raw = .ok e) :
    e.Legible ∧ ∀ child ∈ e.children, ∃ found, parseLevels limit n found = .ok child := by
  obtain ⟨-, d, hd, h⟩ := parseLevels_succ_eq_ok.1 h
  cases d with
  | connective c =>
      obtain ⟨found, items, es, -, -, hes, rfl⟩ := parseKind_connective_eq_ok.1 h
      refine ⟨trivial, fun child hchild => ?_⟩
      obtain ⟨item, -, hitem⟩ := Pairs.of_mem_right (Outcome.mapM_eq_ok.1 hes) hchild
      exact ⟨item, hitem⟩
  | not =>
      obtain ⟨found, e, -, he, rfl⟩ := parseKind_not_eq_ok.1 h
      refine ⟨trivial, fun child hchild => ?_⟩
      rw [List.mem_singleton.1 hchild]
      exact ⟨found, he⟩
  | rule =>
      obtain ⟨ref, href, rfl⟩ := Outcome.map_eq_ok.1 h
      exact ⟨(parseRule_eq_ok.1 href).2.1, fun child hchild => absurd hchild List.not_mem_nil⟩
  | expr =>
      obtain ⟨tag, htag, h⟩ := parseKind_expr_eq_ok.1 h
      -- the tag of leaves would be a second mark
      have hne : tag ≠ "rule" := by
        rintro rfl
        have hmark : Discriminant.rule ∈ discriminants raw := by
          unfold discriminants hasDiscriminant isRuleNode
          rcases parseTag_eq_ok.1 htag with ⟨-, hdefault⟩ | htype
          · exact absurd hdefault (by decide)
          · simp [htype, Value.text?]
        rw [hd] at hmark
        cases List.mem_singleton.1 hmark
      rcases h with ⟨name, -, rfl⟩ | ⟨found, e, -, he, rfl⟩
      · exact ⟨hne, fun child hchild => absurd hchild List.not_mem_nil⟩
      · refine ⟨hne, fun child hchild => ?_⟩
        rw [List.mem_singleton.1 hchild]
        exact ⟨found, he⟩

/-- What is read is no higher than there are levels, and all its nodes are
legible. -/
theorem legible_of_parseLevels (h : parseLevels limit n raw = .ok e) :
    e.height ≤ n ∧ ∀ d, Within d e → d.Legible := by
  induction n generalizing raw e with
  | zero => cases h
  | succ n ih =>
      obtain ⟨hnode, hchildren⟩ := node_of_parseLevels h
      have hall : ∀ child ∈ e.children,
          child.height ≤ n ∧ ∀ d, Within d child → d.Legible := by
        intro child hchild
        obtain ⟨found, hfound⟩ := hchildren child hchild
        exact ih hfound
      constructor
      · have hlow : heights e.children ≤ n := heights_le_iff.2 fun child hc => (hall child hc).1
        rw [height_eq]
        omega
      · exact forall_within_iff.2 ⟨hnode, fun child hchild => (hall child hchild).2⟩

end Expr

-- ============================================================ canonical

namespace Discriminant

/-- The keys that printing writes for a node. -/
def keys : Discriminant → List String
  | .connective c => [c.key]
  | .not => ["Not"]
  | .rule => ["type", "rule", "fields"]
  | .expr => ["type", "expr"]

/-- The keys of a node tell its kind. -/
theorem eq_of_word_mem_keys {d d' : Discriminant} (h : d.word ∈ d'.keys) : d = d' := by
  rcases d with ⟨_ | _⟩ | _ | _ | _ <;> rcases d' with ⟨_ | _⟩ | _ | _ | _ <;>
    first
    | rfl
    | exact absurd h (by decide)

end Discriminant

namespace Expr

variable {limit : Int} {n : Nat} {raw : Value} {e : Expr RuleRef} {d : Discriminant}

/-- A value has, node by node and in the entries of its leaves, the keys that
printing writes and no others. -/
inductive Canonical : Value → Prop where
  | join {raw found : Value} {items : List Value} {c : Connective}
      (keys : raw.HasKeys (Discriminant.connective c).keys)
      (hfound : raw.get? c.key = some found) (hitems : found.unrolled = .list items)
      (h : ∀ item ∈ items, Canonical item) : Canonical raw
  | not {raw child : Value} (keys : raw.HasKeys Discriminant.not.keys)
      (hchild : raw.get? "Not" = some child) (h : Canonical child) : Canonical raw
  | rule {raw found : Value} {items : List Value} (keys : raw.HasKeys Discriminant.rule.keys)
      (hfound : raw.get? "fields" = some found) (hitems : found.unrolled = .list items)
      (h : ∀ item ∈ items, item.HasKeys ["name", "type", "value"]) : Canonical raw
  | named {raw : Value} {name : String} (keys : raw.HasKeys Discriminant.expr.keys)
      (hname : raw.get? "expr" = some (.str name)) : Canonical raw
  | inline {raw child : Value} (keys : raw.HasKeys Discriminant.expr.keys)
      (hchild : raw.get? "expr" = some child) (h : Canonical child) : Canonical raw

/-- Printing writes canonical values. -/
theorem canonical_toValue (e : Expr RuleRef) : Canonical e.toValue := by
  have hkeys (d : Discriminant) (fields : List (String × Value))
      (h : fields.map (·.1) = d.keys) : (Value.object fields).HasKeys d.keys :=
    Value.hasKeys_object (.of_eq h)
  induction e using byChildren with
  | node e ih =>
      cases e with
      | join c es =>
          rw [toValue, toValueWith, toValuesWith_eq]
          refine .join (hkeys (.connective c) _ rfl) (by simp [Table.at?]; rfl) rfl ?_
          exact List.forall_mem_map.2 ih
      | not e => exact .not (hkeys .not _ rfl) rfl (ih e (List.mem_cons_self ..))
      | rule ref =>
          refine .rule (hkeys .rule _ rfl) rfl rfl (List.forall_mem_map.2 fun entry _ => ?_)
          exact Value.hasKeys_object (.refl _)
      | named tag name => exact .named (hkeys .expr _ rfl) rfl
      | inline tag e => exact .inline (hkeys .expr _ rfl) rfl (ih e (List.mem_cons_self ..))

theorem word_of_parseKind {keys : List String} (hkeys : raw.HasKeys keys)
    (h : parseKind limit n raw d = .ok e) : d.word ∈ keys := by
  cases d with
  | connective c =>
      obtain ⟨found, -, -, hfound, -⟩ := parseKind_connective_eq_ok.1 h
      exact hkeys.mem_of_get? hfound
  | not =>
      obtain ⟨child, -, hchild, -⟩ := parseKind_not_eq_ok.1 h
      exact hkeys.mem_of_get? hchild
  | rule =>
      obtain ⟨ref, href, -⟩ := Outcome.map_eq_ok.1 h
      exact hkeys.mem_of_get? (parseRule_eq_ok.1 href).1
  | expr =>
      obtain ⟨tag, -, ⟨name, hname, -⟩ | ⟨child, e', hchild, -⟩⟩ := parseKind_expr_eq_ok.1 h
      · exact hkeys.mem_of_get? hname
      · exact hkeys.mem_of_get? hchild

/-- A canonical node is read by the kind that its keys are of. -/
theorem parseKind_of_hasKeys (hkeys : raw.HasKeys d.keys) (h : parseLevels limit n raw = .ok e) :
    ∃ m, hasDiscriminant raw d = true ∧ parseKind limit m raw d = .ok e := by
  cases n with
  | zero => cases h
  | succ n =>
      obtain ⟨-, d', hd, h⟩ := parseLevels_succ_eq_ok.1 h
      obtain rfl : d' = d := Discriminant.eq_of_word_mem_keys (word_of_parseKind hkeys h)
      exact ⟨n, hasDiscriminant_of_eq hd, h⟩

theorem alike_entry {rule : String} {entry : FieldEntry}
    (hkeys : raw.HasKeys ["name", "type", "value"]) (h : parseField rule raw = .ok entry) :
    Value.Alike entry.toValue raw := by
  obtain ⟨hname, htype, hvalue⟩ := parseField_eq_ok.1 h
  refine Value.alike_object (by simp) hkeys ?_
  rw [List.forall_mem_cons, List.forall_mem_cons, List.forall_mem_singleton]
  exact ⟨⟨_, hname, .refl _⟩, ⟨_, htype, .refl _⟩, _, hvalue, .refl _⟩

theorem alike_leaf {ref : RuleRef} {found : Value} {items : List Value}
    (hkeys : raw.HasKeys Discriminant.rule.keys) (hmark : isRuleNode raw = true)
    (hfound : raw.get? "fields" = some found) (hitems : found.unrolled = .list items)
    (hentries : ∀ item ∈ items, item.HasKeys ["name", "type", "value"])
    (h : parseRule raw = .ok ref) : Value.Alike ref.toValue raw := by
  obtain ⟨hrule, -, hfields⟩ := parseRule_eq_ok.1 h
  have htype : raw.get? "type" = some (.str "rule") := by
    obtain ⟨v, hv, htext⟩ := Option.bind_eq_some_iff.1 (of_decide_eq_true hmark)
    rw [hv, Value.text?_iff.1 htext]
  have halike : Value.Alike (.list (ref.fields.map FieldEntry.toValue)) found := by
    rcases hfields with ⟨hnone, -⟩ | ⟨found', items', hfound', hitems', hparsed⟩
    · rw [hfound] at hnone
      cases hnone
    · obtain rfl : found = found' := Option.some.inj (hfound.symm.trans hfound')
      obtain rfl : items = items' := Value.list.inj (hitems.symm.trans hitems')
      refine .list hitems (List.forall₂_map_left_iff.2 ?_)
      refine Pairs.imp_of_mem (Outcome.mapM_eq_ok.1 hparsed).flip fun entry _ item hitem h => ?_
      exact alike_entry (hentries item hitem) h
  refine Value.alike_object (by simp) hkeys ?_
  rw [List.forall_mem_cons, List.forall_mem_cons, List.forall_mem_singleton]
  exact ⟨⟨_, htype, .refl _⟩, ⟨_, hrule, .refl _⟩, _, hfound, halike⟩

theorem alike_reference {tag : String} {found shown : Value}
    (hkeys : raw.HasKeys Discriminant.expr.keys) (htag : parseTag raw = .ok tag)
    (hfound : raw.get? "expr" = some found) (h : Value.Alike shown found) :
    Value.Alike (.object [("type", .str tag), ("expr", shown)]) raw := by
  -- the tag may be left out, but not of a canonical reference
  have htype : raw.get? "type" = some (.str tag) := by
    rcases parseTag_eq_ok.1 htag with ⟨hnone, -⟩ | htype
    · obtain ⟨v, hv⟩ := hkeys.exists_get? (by decide) (List.mem_cons_self ..)
      rw [hnone] at hv
      cases hv
    · exact htype
  refine Value.alike_object (by simp) hkeys ?_
  rw [List.forall_mem_cons, List.forall_mem_singleton]
  exact ⟨⟨_, htype, .refl _⟩, _, hfound, h⟩

/-- What a canonical value was read as prints that value. -/
theorem alike_of_canonical (hraw : Canonical raw) (h : parseLevels limit n raw = .ok e) :
    Value.Alike e.toValue raw := by
  induction hraw generalizing n e with
  | @join raw found items c keys hfound hitems _ ih =>
      obtain ⟨m, -, h⟩ := parseKind_of_hasKeys keys h
      obtain ⟨found', items', es, hfound', hitems', hes, rfl⟩ := parseKind_connective_eq_ok.1 h
      obtain rfl : found = found' := Option.some.inj (hfound.symm.trans hfound')
      obtain rfl : items = items' := Value.list.inj (hitems.symm.trans hitems')
      have halike : Value.Alike (.list (es.map toValue)) found := by
        refine .list hitems (List.forall₂_map_left_iff.2 ?_)
        exact Pairs.imp_of_mem (Outcome.mapM_eq_ok.1 hes).flip
          fun e _ item hitem h => ih item hitem h
      rw [toValue, toValueWith, toValuesWith_eq]
      exact Value.alike_singleton keys hfound halike
  | @not raw child keys hchild _ ih =>
      obtain ⟨m, -, h⟩ := parseKind_of_hasKeys keys h
      obtain ⟨child', e', hchild', he, rfl⟩ := parseKind_not_eq_ok.1 h
      obtain rfl : child = child' := Option.some.inj (hchild.symm.trans hchild')
      exact Value.alike_singleton keys hchild (ih he)
  | rule keys hfound hitems hentries =>
      obtain ⟨m, hmark, h⟩ := parseKind_of_hasKeys keys h
      obtain ⟨ref, href, rfl⟩ := Outcome.map_eq_ok.1 h
      exact alike_leaf keys hmark hfound hitems hentries href
  | @named raw name keys hname =>
      obtain ⟨m, -, h⟩ := parseKind_of_hasKeys keys h
      obtain ⟨tag, htag, ⟨name', hname', rfl⟩ | ⟨child, e', hchild, he, -⟩⟩ :=
        parseKind_expr_eq_ok.1 h
      · exact alike_reference keys htag hname' (.refl _)
      · -- a text under the key is a name, and no expression in its place
        obtain ⟨entry, entries, hmap⟩ := unrolled_of_parseLevels he
        rw [hname, Option.some.injEq] at hchild
        subst hchild
        cases hmap
  | @inline raw child keys hchild _ ih =>
      obtain ⟨m, -, h⟩ := parseKind_of_hasKeys keys h
      obtain ⟨tag, htag, ⟨name, hname, rfl⟩ | ⟨child', e', hchild', he, rfl⟩⟩ :=
        parseKind_expr_eq_ok.1 h
      · exact alike_reference keys htag hname (.refl _)
      · obtain rfl : child = child' := Option.some.inj (hchild.symm.trans hchild')
        exact alike_reference keys htag hchild (ih he)

-- ============================================================ both ways

theorem parse_back (h : parse limit raw = .ok e) : parse limit e.toValue = .ok e := by
  obtain ⟨hle, hlegible⟩ := legible_of_parseLevels h
  exact parseLevels_toValue hlegible hle

/-- Parsing and printing undo each other: what a read expression prints is read
as that expression within the same limit, and of a canonical value it prints
that value. -/
theorem parse_toValue (h : parse limit raw = .ok e) :
    parse limit e.toValue = .ok e ∧ (Canonical raw → Value.Alike e.toValue raw) :=
  ⟨parse_back h, fun hraw => alike_of_canonical hraw h⟩

/-- A value with nodes of all kinds, whose mappings list their keys in other
orders than printing does. -/
def shuffledValue : Value :=
  .object [("Or", .list [
    .object [("And", .list [.object [("expr", .str "base"), ("type", .str "ref")]])],
    .object [("Not", .object [("expr", .object [
      ("fields", .list [.object
        [("value", .int 3), ("type", .str "integer"), ("name", .str "top")]]),
      ("rule", .str "Ceiling"), ("type", .str "rule")]), ("type", .str "expr")])]])]

def shuffledExpr : Expr RuleRef :=
  .join .any [.join .all [.named "ref" "base"],
    .not (.inline "expr" (.rule ⟨"Ceiling", [⟨"top", "integer", .int 3⟩]⟩))]

theorem canonical_shuffledValue : Canonical shuffledValue := by
  have hkeys (d : Discriminant) (fields : List (String × Value))
      (h : (fields.map (·.1)).Perm d.keys) : (Value.object fields).HasKeys d.keys :=
    Value.hasKeys_object h
  refine .join (c := .any) (hkeys _ _ (by decide)) rfl rfl ?_
  simp only [List.forall_mem_cons, List.not_mem_nil, false_implies, implies_true, and_true]
  constructor
  · refine .join (c := .all) (hkeys _ _ (by decide)) rfl rfl ?_
    simp only [List.forall_mem_singleton]
    exact .named (hkeys _ _ (by decide)) rfl
  · refine .not (hkeys _ _ (by decide)) rfl (.inline (hkeys _ _ (by decide)) rfl ?_)
    refine .rule (hkeys _ _ (by decide)) rfl rfl ?_
    simp only [List.forall_mem_singleton]
    exact Value.hasKeys_object (by decide)

theorem shuffled_printed :
    parse 4 shuffledValue = .ok shuffledExpr ∧ parse 4 shuffledExpr.toValue = .ok shuffledExpr
      ∧ Value.Alike shuffledExpr.toValue shuffledValue := by
  have hparse : parse 4 shuffledValue = .ok shuffledExpr := rfl
  exact ⟨hparse, (parse_toValue hparse).1, (parse_toValue hparse).2 canonical_shuffledValue⟩

end Expr

end Verdict
