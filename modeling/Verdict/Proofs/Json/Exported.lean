/-
What is exported as text and read again. A ruleset that describes itself, and an
expression under its name, are documents of lists, of mappings with distinct texts
as keys, and of leaves of which the text loses nothing. So reading the text gives
the document, unless it opens too many brackets at once. A ruleset never does; an
expression may, and its fields may hold values that have no text.

# Vocabulary

- `v.Plain`: the value is of null, truth values, whole numbers that are not too
  long, texts, lists, and mappings with distinct texts as keys.
- `v.nesting`: how many brackets the text of the value opens at once.

# Main statements

- `faithful_iff`: the values whose text gives them back are the plain ones, as long
  as there are brackets enough.
- `Source.readText_pretty`: the text of a mapping is taken for JSON.
- `Ruleset.faithful_toValue`, `Expr.plain_toValue`: what is exported is of these.
- `read_exported`: what is exported is read again as what it was.
-/
import Verdict.Expr.Export
import Verdict.Policy.Source
import Verdict.Proofs.Expr.Printed
import Verdict.Proofs.Json.RoundTrip
import Verdict.Proofs.Ruleset.History

namespace Verdict

open Json (Faithful)

-- =============================================================== values

namespace Value

variable {v : Value} {d : Nat} {items : List Value} {entries : List (Value × Value)}

/-- A value is of kinds that have a text of their own. -/
inductive Plain : Value → Prop where
  | null : Plain .null
  | bool (b : Bool) : Plain (.bool b)
  | int {n : Int} (h : n.natAbs < beyondDigits) : Plain (.int n)
  | str (s : String) : Plain (.str s)
  | list {items : List Value} (h : ∀ v ∈ items, Plain v) : Plain (.list items)
  | object {fields : Table Value} (hkeys : fields.names.Nodup) (h : ∀ e ∈ fields, Plain e.2) :
      Plain (.object fields)

mutual

/-- The number of brackets that the text of a value opens at once. -/
def nesting : Value → Nat
  | .list items => nestings items + 1
  | .pair a b => max (nesting a) (nesting b) + 1
  | .map entries => nestingsUnder entries + 1
  | .set items => nestings items + 1
  | _ => 0

/-- The number of brackets that the text of one of some values opens at once. -/
def nestings : List Value → Nat
  | [] => 0
  | v :: rest => max (nesting v) (nestings rest)

/-- The number of brackets that the text of one of some entries opens at once. -/
def nestingsUnder : List (Value × Value) → Nat
  | [] => 0
  | (_, v) :: rest => max (nesting v) (nestingsUnder rest)

end

theorem nestings_le_iff : nestings items ≤ d ↔ ∀ v ∈ items, v.nesting ≤ d := by
  induction items with
  | nil => simp [nestings]
  | cons v items ih => simp [nestings, ih]

theorem nestingsUnder_le_iff : nestingsUnder entries ≤ d ↔ ∀ e ∈ entries, e.2.nesting ≤ d := by
  induction entries with
  | nil => simp [nestingsUnder]
  | cons e entries ih => simp [nestingsUnder, ih]

theorem nesting_list_le_iff :
    (Value.list items).nesting ≤ d + 1 ↔ ∀ v ∈ items, v.nesting ≤ d := by
  rw [nesting, Nat.succ_le_succ_iff, nestings_le_iff]

theorem nesting_object_le_iff {fields : Table Value} :
    (Value.object fields).nesting ≤ d + 1 ↔ ∀ e ∈ fields, e.2.nesting ≤ d := by
  rw [object, nesting, Nat.succ_le_succ_iff, nestingsUnder_le_iff, List.forall_mem_map]

/-- The values whose text gives them back are the plain ones that open no more
brackets at once than may be open. -/
theorem faithful_iff : Faithful d v ↔ v.Plain ∧ v.nesting ≤ d := by
  constructor
  · intro h
    induction h with
    | null => exact ⟨.null, Nat.zero_le _⟩
    | bool b => exact ⟨.bool b, Nat.zero_le _⟩
    | int h => exact ⟨.int h, Nat.zero_le _⟩
    | str s => exact ⟨.str s, Nat.zero_le _⟩
    | list _ ih =>
        exact ⟨.list fun v hv => (ih v hv).1, nesting_list_le_iff.2 fun v hv => (ih v hv).2⟩
    | object hkeys _ ih =>
        exact ⟨.object hkeys fun e he => (ih e he).1,
          nesting_object_le_iff.2 fun e he => (ih e he).2⟩
  · rintro ⟨hplain, hle⟩
    induction hplain generalizing d with
    | null => exact .null
    | bool b => exact .bool b
    | int h => exact .int h
    | str s => exact .str s
    | list _ ih =>
        cases d with
        | zero => cases hle
        | succ d => exact .list fun v hv => ih v hv (nesting_list_le_iff.1 hle v hv)
    | object hkeys _ ih =>
        cases d with
        | zero => cases hle
        | succ d => exact .object hkeys fun e he => ih e he (nesting_object_le_iff.1 hle e he)

end Value

-- ================================================================ texts

namespace Source

variable {fields : Table Value}

/-- The text of a mapping begins with a brace, and is read as JSON. -/
theorem isJson_pretty (fields : Table Value) : isJson (Json.pretty (.object fields)) = true := by
  have hopening : ∀ items, (Text.dropBlanks
      (Json.enclose (.spread 0) '\x7b' '\x7d' items)).head? = some '\x7b' := by
    intro items
    unfold Json.enclose
    split
    · rfl
    · rfl
  unfold isJson Json.pretty Value.object
  rw [String.toList_ofList, Json.writeValue, hopening, decide_eq_true rfl]

/-- The text of a mapping is read as that mapping, if nothing is lost in it. -/
theorem readText_pretty (h : Faithful Json.depthLimit (.object fields)) :
    readText (Json.pretty (.object fields)) = .ok (.object fields) := by
  have hvalue : readValue (Json.pretty (.object fields)) = .ok (.object fields) := by
    unfold readValue
    rw [if_pos (isJson_pretty fields), Json.read_pretty h]
    rfl
  unfold readText
  rw [hvalue]
  rfl

end Source

-- ============================================================= rulesets

variable {d : Nat}

/-- What a field is listed as is written without loss. -/
theorem FieldSpec.faithful_toValue (spec : FieldSpec) : Faithful (d + 2) spec.toValue := by
  unfold FieldSpec.toValue
  cases spec.options with
  | none =>
      refine .object (by simp [Table.names]) ?_
      rw [List.append_nil, List.forall_mem_cons, List.forall_mem_cons, List.forall_mem_singleton]
      exact ⟨.str _, .str _, .str _⟩
  | some options =>
      refine .object (by simp [Table.names]) ?_
      rw [List.forall_mem_append, List.forall_mem_cons, List.forall_mem_cons,
        List.forall_mem_singleton, List.forall_mem_singleton]
      exact ⟨⟨.str _, .str _, .str _⟩, .texts options⟩

namespace Ruleset

/-- What a ruleset says of itself is written without loss if no two of its rules have
one name. -/
theorem faithful_toValue {s : Ruleset} (h : s.ruleNames.Nodup) : Faithful (d + 5) s.toValue := by
  have hdefinition : Faithful (d + 4)
      (.object (s.rules.map fun r => (r.1, r.2.schema.toValue))) := by
    refine .object ?_ (List.forall_mem_map.2 fun r _ => ?_)
    · unfold Table.names
      rwa [List.map_map]
    · exact .list (List.forall_mem_map.2 fun spec _ => spec.faithful_toValue)
  refine .object (by simp [Table.names]) ?_
  rw [List.forall_mem_cons, List.forall_mem_cons, List.forall_mem_singleton]
  exact ⟨.str _, .texts _, hdefinition⟩

/-- The text of a ruleset is read as what the ruleset says of itself. -/
theorem read_toJson {s : Ruleset} (h : s.ruleNames.Nodup) :
    Json.read s.toJson = .ok s.toValue :=
  Json.read_pretty (faithful_toValue (d := 985) h)

end Ruleset

-- ========================================================== expressions

namespace Expr

variable {e : Expr RuleRef}

/-- The values of all fields in an expression are plain. -/
def PlainFields (e : Expr RuleRef) : Prop :=
  ∀ leaf, Within (.rule leaf) e → ∀ entry ∈ leaf.fields, entry.value.Plain

theorem plain_entry {entry : FieldEntry} (h : entry.value.Plain) : entry.toValue.Plain := by
  refine .object (by simp [Table.names]) ?_
  rw [List.forall_mem_cons, List.forall_mem_cons, List.forall_mem_singleton]
  exact ⟨.str _, .str _, h⟩

theorem plain_leaf {leaf : RuleRef} (h : ∀ entry ∈ leaf.fields, entry.value.Plain) :
    leaf.toValue.Plain := by
  refine .object (by simp [Table.names]) ?_
  rw [List.forall_mem_cons, List.forall_mem_cons, List.forall_mem_singleton]
  exact ⟨.str _, .str _, .list (List.forall_mem_map.2 fun entry hentry =>
    plain_entry (h entry hentry))⟩

/-- What an expression prints is plain where the values of its fields are. -/
theorem plain_toValue (h : e.PlainFields) : e.toValue.Plain := by
  induction e using induct with
  | join c es ih =>
      rw [toValue, toValueWith, toValuesWith_eq]
      refine .object (List.nodup_singleton _) (List.forall_mem_singleton.2 (.list ?_))
      exact List.forall_mem_map.2 fun e he =>
        ih e he fun leaf hleaf => h leaf (leaf_within_join.2 ⟨e, he, hleaf⟩)
  | not e ih =>
      refine .object (List.nodup_singleton _) (List.forall_mem_singleton.2 ?_)
      exact ih fun leaf hleaf => h leaf (leaf_within_not.2 hleaf)
  | rule leaf => exact plain_leaf (h leaf .self)
  | named tag name =>
      refine .object (by simp [Table.names]) ?_
      rw [List.forall_mem_cons, List.forall_mem_singleton]
      exact ⟨.str _, .str _⟩
  | inline tag e ih =>
      refine .object (by simp [Table.names]) ?_
      rw [List.forall_mem_cons, List.forall_mem_singleton]
      exact ⟨.str _, ih fun leaf hleaf => h leaf (leaf_within_inline.2 hleaf)⟩

theorem plain_namedDocument (name : String) (h : e.PlainFields) :
    (e.namedDocument name).Plain := by
  refine .object (by simp [Table.names]) ?_
  rw [List.forall_mem_cons, List.forall_mem_singleton]
  exact ⟨.str _, plain_toValue h⟩

/-- The text of an expression under its name is read as the document of both. -/
theorem readText_toJson (name : String) (h : e.PlainFields)
    (hle : (e.namedDocument name).nesting ≤ Json.depthLimit) :
    Source.readText (e.toJson name) = .ok (e.namedDocument name) :=
  Source.readText_pretty (Value.faithful_iff.2 ⟨plain_namedDocument name h, hle⟩)

end Expr

-- ============================================================= exported

/-- What is exported is read again as what it was. The text of a ruleset, whatever
rules it has taken and whether it is sealed, is JSON for what the ruleset says of
itself. The text of an expression that was read, under any name, is read as the
document that holds the name and what the expression prints, which is read as that
expression within the same limit; for this the values of its fields are plain, and
the document opens no more brackets at once than the reader follows. -/
theorem read_exported :
    (∀ s : Ruleset, s.Reached → Json.read s.toJson = .ok s.toValue)
    ∧ ∀ (limit : Int) (raw : Value) (e : Expr RuleRef) (name : String),
      Expr.parse limit raw = .ok e → e.PlainFields →
      (e.namedDocument name).nesting ≤ Json.depthLimit →
      ∃ document, Source.readText (e.toJson name) = .ok document
        ∧ document = .object [("name", .str name), ("expression", e.toValue)]
        ∧ (document.get? "expression").map (Expr.parse limit) = some (.ok e) := by
  refine ⟨fun s hs => Ruleset.read_toJson hs.kept.nodup, fun limit raw e name hparse h hle => ?_⟩
  refine ⟨_, Expr.readText_toJson name h hle, rfl, ?_⟩
  have hget : (e.namedDocument name).get? "expression" = some e.toValue := by
    simp [Expr.namedDocument, Table.at?]
  rw [hget, Option.map_some, Expr.parse_back hparse]

/-- An expression with a leaf whose fields hold values of all plain kinds, among them
brackets without items and characters that are escaped. -/
def exportedExpr : Expr RuleRef :=
  .join .any [.not (.named "expr" "base"), .join .all [],
    .inline "expr" (.rule ⟨"Ceiling", [⟨"top", "integer", .int (-12)⟩,
      ⟨"tags", "string_array", .list [.str "\"ä\n", .null, .list []]⟩,
      ⟨"more", "object", .object [("on", .bool true), ("", .object [])]⟩]⟩)]

theorem exportedExpr_plainFields : exportedExpr.PlainFields := by
  intro leaf hleaf
  simp only [exportedExpr, Expr.leaf_within_join, Expr.leaf_within_not, Expr.leaf_within_inline,
    Expr.leaf_within_named, Expr.leaf_within_rule, List.exists_mem_cons_iff, List.not_mem_nil,
    false_and, exists_false, or_false, false_or] at hleaf
  subst hleaf
  rw [List.forall_mem_cons, List.forall_mem_cons, List.forall_mem_singleton]
  refine ⟨.int (by decide +kernel), .list ?_, .object (by decide) ?_⟩
  · rw [List.forall_mem_cons, List.forall_mem_cons, List.forall_mem_singleton]
    exact ⟨.str _, .null, .list fun v hv => absurd hv List.not_mem_nil⟩
  · rw [List.forall_mem_cons, List.forall_mem_singleton]
    exact ⟨.bool _, .object List.nodup_nil fun e he => absurd he List.not_mem_nil⟩

/-- A sealed ruleset and such an expression are exported and read again. -/
theorem ceiling_exported :
    Json.read (fieldChecker "x").ruleset.toJson = .ok (fieldChecker "x").ruleset.toValue
      ∧ ∃ document, Source.readText (exportedExpr.toJson "high") = .ok document
        ∧ document = .object [("name", .str "high"), ("expression", exportedExpr.toValue)]
        ∧ (document.get? "expression").map (Expr.parse 4) = some (.ok exportedExpr) := by
  have hnew : Ruleset.create "Fields" = .ok ⟨"Fields", [], none⟩ := rfl
  have hopen : (Ruleset.register ⟨"Fields", [], none⟩ (.rule (fieldRule "x"))).value
      = .ok (⟨"Fields", [("Positive", fieldRule "x")], none⟩, fieldRule "x") := rfl
  have hsealed : (Ruleset.close ⟨"Fields", [("Positive", fieldRule "x")], none⟩).value
      = .ok ((fieldChecker "x").ruleset, (fieldRule "x").signature) := rfl
  have hreached := ((Ruleset.reached_of_create hnew).register hopen).close hsealed
  have hparse : Expr.parse 4 exportedExpr.toValue = .ok exportedExpr := rfl
  exact ⟨read_exported.1 _ hreached,
    read_exported.2 4 _ _ "high" hparse exportedExpr_plainFields (by decide)⟩

end Verdict
