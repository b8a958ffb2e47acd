/-
Instances as text. An instance is written as a document that lists its fields,
each with the type and the value that it has, and reading the text binds these
values to the rule again. A value is read as it was bound where its record shows
it under its name; under two names a record shows something of its own.

# Vocabulary

- `i.Complete`: every field of the rule is bound in the instance, in order, to a
  value that its kind binds.
- `r.Shows`: no field of the rule has a name under which records show something
  of their own.

# Main statements

- `Instance.complete_of_bindEntries`: what binding gives is complete.
- `Instance.Complete.rebind`: the values of a complete instance bind to it.
- `readJson_toJson`: the text of an instance is read as that instance, if all that
  was bound is shown and no number is too long.
-/
import Verdict.Proofs.Json.RoundTrip
import Verdict.Proofs.Policy.WellFormed

namespace Verdict

-- ================================================================ binding

/-- What a kind has bound is bound again from its document form. -/
theorem FieldKind.bind_toValue {kind : FieldKind} {field : String} {v : Value} {b : Bound}
    (h : kind.bind field v = .ok b) (other : String) :
    kind.Takes b.toValue ∧ kind.bind other b.toValue = .ok b := by
  cases kind with
  | text =>
      cases v with
      | str s =>
          injection h with h
          rw [← h]
          exact ⟨⟨s, rfl⟩, rfl⟩
      | _ => cases h
  | integer =>
      cases v with
      | int n =>
          injection h with h
          rw [← h]
          exact ⟨⟨n, rfl⟩, rfl⟩
      | _ => cases h
  | boolean =>
      cases v with
      | bool b =>
          injection h with h
          rw [← h]
          exact ⟨⟨b, rfl⟩, rfl⟩
      | _ => cases h
  | textList =>
      unfold bind at h
      dsimp only at h
      split at h
      next => cases h
      next items _ =>
        split at h
        next texts _ =>
          injection h with h
          have hitems : textItems 0 (texts.map .str) = .ok texts := textItems_iff.2 rfl
          rw [← h]
          refine ⟨⟨texts, rfl⟩, ?_⟩
          unfold bind itemsOf? Bound.toValue Value.texts Value.unrolled
          dsimp only
          rw [hitems]
        next => cases h
  | choice c =>
      unfold bind at h
      dsimp only at h
      split at h
      next m hm =>
        injection h with h
        have hvalue : v = .str m.2 := by
          unfold Choice.member? at hm
          split at hm
          next s =>
            have hs := List.find?_some hm
            rw [of_decide_eq_true hs]
          next => cases hm
        rw [hvalue] at hm
        rw [← h]
        refine ⟨member?_iff.1 ⟨m, hm⟩, ?_⟩
        unfold bind Bound.toValue
        dsimp only
        rw [hm]
      next => cases h

/-- A bound value in a document is a document of its own. -/
theorem Bound.isDocument_toValue (b : Bound) : b.toValue.IsDocument := by
  cases b with
  | text s => exact .str s
  | integer n => exact .int n
  | boolean b => exact .bool b
  | textList items => exact .texts items
  | member choice name value => exact .str value

namespace Instance

/-- The fields by name, each with the document form of what is bound to it. -/
def values (i : Instance) : Table Value := i.bindings.map fun b => (b.1, b.2.toValue)

/-- Every field of the rule is bound, in order, to a value that its kind binds. -/
structure Complete (i : Instance) : Prop where
  bindable : ∀ spec ∈ i.rule.schema.specs, Schema.isBindable spec = true
  bound : List.Forall₂ (fun spec b => b.1 = spec.name ∧
    ∃ v, spec.kind.bind spec.name v = .ok b.2) i.rule.schema.specs i.bindings

/-- What binding gives is complete. -/
theorem complete_of_bindEntries {r : Rule} {entries : List (Value × Value)} {i : Instance}
    (h : r.bindEntries entries = .ok i) : i.rule = r ∧ i.Complete := by
  obtain ⟨rfl, -, hbindable, hall⟩ := Rule.bindEntries_eq_ok h
  refine ⟨rfl, hbindable, hall.imp fun spec b hb => ?_⟩
  obtain ⟨hname, v, -, hv⟩ := hb
  exact ⟨hname, v, hv⟩

namespace Complete

variable {i : Instance} {spec : FieldSpec} {b : String × Bound}

theorem names_eq (h : i.Complete) : i.bindings.names = i.rule.schema.names :=
  (Pairs.map_eq h.bound fun _ _ hb => hb.1.symm).symm

theorem nodup (h : i.Complete) : i.bindings.names.Nodup := by
  rw [h.names_eq]
  exact i.rule.schema.names_nodup

theorem at?_values (h : i.Complete) (hb : b ∈ i.bindings) :
    i.values.at? b.1 = some b.2.toValue := by
  unfold values
  rw [Table.at?_map, Table.at?_of_mem h.nodup hb]
  rfl

/-- The values of a complete instance bind to it. -/
theorem rebind (h : i.Complete) : i.rule.bindFields i.values = .ok i := by
  have hdoc : ∀ name v, i.values.at? name = some v → v.IsDocument := by
    intro name v hv
    obtain ⟨b, -, hb⟩ := List.mem_map.1 (Table.mem_of_at? hv)
    injection hb with _ hb
    rw [← hb]
    exact b.2.isDocument_toValue
  have hvalues : ∀ spec ∈ i.rule.schema.specs, Schema.isBindable spec = true
      ∧ ∃ v, i.values.at? spec.name = some v ∧ spec.kind.Takes v := by
    intro spec hspec
    obtain ⟨b, hb, hname, v, hv⟩ := Pairs.of_mem_left h.bound hspec
    refine ⟨h.bindable spec hspec, b.2.toValue, ?_, (FieldKind.bind_toValue hv spec.name).1⟩
    rw [← hname, h.at?_values hb]
  have hnames : ∀ name ∈ i.values.names, name ∈ i.rule.schema.names := by
    intro name hname
    unfold values at hname
    rwa [Table.names_map, h.names_eq] at hname
  obtain ⟨j, hj⟩ := (Rule.bindFields_iff hdoc).2 ⟨hnames, hvalues⟩
  obtain ⟨hrule, -, -, hall⟩ := Rule.bindEntries_eq_ok hj
  have hbindings : i.bindings = j.bindings := by
    refine Pairs.unique h.bound hall fun b hb spec b' hi hj => ?_
    obtain ⟨hname, v, hv⟩ := hi
    obtain ⟨hname', w, hw, hbind⟩ := hj
    rw [Value.lookup_fields, ← hname, h.at?_values hb] at hw
    rw [← Option.some.inj hw, (FieldKind.bind_toValue hv spec.name).2] at hbind
    exact Prod.ext (hname.trans hname'.symm) (Except.ok.inj hbind)
  rw [hj]
  obtain ⟨rule, bindings⟩ := j
  subst hrule hbindings
  rfl

end Complete

end Instance

-- ================================================================ reading

/-- No field of the rule has a name under which records show something of their
own. -/
def Rule.Shows (r : Rule) : Prop :=
  ∀ spec ∈ r.schema.specs, spec.name ≠ Schema.extraName ∧ spec.name ≠ Schema.boundName

/-- The document form of a field with the value that is bound to it. -/
def FieldSpec.entry (spec : FieldSpec) (v : Value) : Value :=
  .object [("name", .str spec.name), ("type", .str spec.kind.tag), ("value", v)]

namespace FieldSpec

theorem get?_entry_name (spec : FieldSpec) (v : Value) :
    (spec.entry v).get? "name" = some (.str spec.name) := by
  unfold entry
  rw [Value.get?_object]
  rfl

theorem get?_entry_type (spec : FieldSpec) (v : Value) :
    (spec.entry v).get? "type" = some (.str spec.kind.tag) := by
  unfold entry
  rw [Value.get?_object]
  rfl

theorem get?_entry_value (spec : FieldSpec) (v : Value) :
    (spec.entry v).get? "value" = some v := by
  unfold entry
  rw [Value.get?_object]
  rfl

end FieldSpec

namespace Instance.Complete

variable {i : Instance}

/-- What was bound to a field is read under its name. -/
theorem read_eq (h : i.Complete) (hshows : i.rule.Shows) {spec : FieldSpec}
    (hspec : spec ∈ i.rule.schema.specs) {b : String × Bound} (hb : b ∈ i.bindings)
    (hname : b.1 = spec.name) : i.read spec = .bound b.2 := by
  obtain ⟨hheld, -⟩ := Schema.isBindable_iff.1 (h.bindable spec hspec)
  unfold Schema.isHeld at hheld
  rw [Bool.and_eq_true, decide_eq_true_iff, decide_eq_true_iff] at hheld
  have hunderscores : ¬ spec.name.startsWith "__" = true := by
    rw [String.startsWith_string_iff]
    intro hprefix
    obtain ⟨more, hmore⟩ := hprefix
    rw [← hmore] at hheld
    exact hheld.1 rfl
  unfold read Schema.read
  rw [if_neg hheld.2, if_neg hunderscores, if_neg (hshows spec hspec).1,
    if_neg (hshows spec hspec).2, ← hname, Table.at?_of_mem h.nodup hb]

/-- The fields of a complete instance are listed with what is bound to them. -/
theorem listed (h : i.Complete) (hshows : i.rule.Shows) :
    List.Forall₂ (fun spec b => spec.name = b.1 ∧ i.fieldValue spec = spec.entry b.2.toValue)
      i.rule.schema.specs i.bindings := by
  refine Pairs.imp_of_mem h.bound fun spec hspec b hb hbound => ⟨hbound.1.symm, ?_⟩
  unfold fieldValue
  rw [h.read_eq hshows hspec hb hbound.1]
  rfl

end Instance.Complete

namespace Rule

variable {r : Rule}

/-- A listed field has its type. -/
theorem checkEntry_entry {spec : FieldSpec} (h : spec ∈ r.schema.specs) (v : Value) :
    r.checkEntry (spec.entry v) = .ok () := by
  have hfind : r.schema.find? spec.name = some spec := Schema.find?_iff.2 ⟨h, rfl⟩
  have hname := spec.get?_entry_name v
  unfold checkEntry
  rw [if_pos (Value.isMap_of_get? hname), hname, Option.getD_some]
  dsimp only
  rw [hfind]
  dsimp only
  rw [spec.get?_entry_type v]
  exact if_pos rfl

/-- Entries that give names give the table of their values. -/
theorem entryValues_named {items : List Value} {entries : List (String × Value)}
    (h : List.Forall₂ (fun item e => item.get? "name" = some (.str e.1)
      ∧ (item.get? "value").getD .null = e.2) items entries) :
    entryValues [] items = .ok ((Table.ofEntries entries).map fun e => (.str e.1, e.2)) := by
  -- whatever was read before
  suffices hfrom : ∀ read : Table Value, entryValues (read.map fun e => (.str e.1, e.2)) items
      = .ok ((entries.foldl (fun t e => t.put e.1 e.2) read).map fun e => (.str e.1, e.2)) from
    hfrom []
  induction h with
  | nil => exact fun _ => rfl
  | cons hentry _ ih =>
      intro read
      rw [entryValues, hentry.1]
      dsimp only
      rw [hentry.2, Value.putEntry_fields, ih]
      rfl

end Rule

namespace Instance.Complete

variable {i : Instance}

/-- The document of a complete instance is read as the instance. -/
theorem readDocument_toValue (h : i.Complete) (hshows : i.rule.Shows) :
    i.rule.readDocument i.toValue = .ok i := by
  have hfields : i.toValue.get? "fields"
      = some (.list (i.rule.schema.specs.map i.fieldValue)) := by
    unfold toValue
    rw [Value.get?_object]
    rfl
  have hcheck : (i.rule.schema.specs.map i.fieldValue).forM i.rule.checkEntry = .ok () := by
    rw [Outcome.forM_eq_ok, List.forall_mem_map]
    intro spec hspec
    obtain ⟨b, -, -, hvalue⟩ := Pairs.of_mem_left (h.listed hshows) hspec
    rw [hvalue]
    exact Rule.checkEntry_entry hspec _
  have hnames : i.values.names.Nodup := by
    unfold values
    rw [Table.names_map]
    exact h.nodup
  have hvalues : Rule.entryValues [] (i.rule.schema.specs.map i.fieldValue)
      = .ok ((Table.ofEntries i.values).map fun e => (.str e.1, e.2)) := by
    refine Rule.entryValues_named ?_
    unfold values
    rw [List.forall₂_map_left_iff, List.forall₂_map_right_iff]
    refine (h.listed hshows).imp fun spec b hb => ?_
    rw [hb.2, spec.get?_entry_name, spec.get?_entry_value, hb.1]
    exact ⟨rfl, rfl⟩
  rw [Table.ofEntries_of_nodup hnames] at hvalues
  unfold Rule.readDocument
  rw [hfields]
  dsimp only [Option.map_some, Value.unrolled]
  rw [hcheck, hvalues]
  show (i.rule.bindFields i.values).mapError Rule.ReadError.ofDefect = _
  rw [h.rebind]
  rfl

/-- What a complete instance shows has a text. -/
theorem toJson?_eq (h : i.Complete) (hshows : i.rule.Shows) :
    i.toJson? = some (Json.pretty i.toValue) := by
  have hset : ¬ (i.readings.any fun r => r.2.isSet) = true := by
    rw [List.any_eq_true]
    intro hany
    obtain ⟨reading, hmem, hisset⟩ := hany
    obtain ⟨spec, hspec, rfl⟩ := List.mem_map.1 hmem
    obtain ⟨b, hb, hname, -⟩ := Pairs.of_mem_left h.bound hspec
    dsimp only at hisset
    rw [h.read_eq hshows hspec hb hname] at hisset
    cases hisset
  unfold toJson?
  rw [if_neg hset]

end Instance.Complete

-- =================================================================== text

open Json (Faithful)

/-- A bound value is written without loss, unless it is too long a number. -/
theorem Bound.faithful_toValue {d : Nat} {b : Bound}
    (h : ∀ n, b = .integer n → n.natAbs < Value.beyondDigits) : Faithful (d + 1) b.toValue := by
  cases b with
  | text s => exact .str s
  | integer n => exact .int (h n rfl)
  | boolean b => exact .bool b
  | textList items => exact .texts items
  | member choice name value => exact .str value

theorem FieldSpec.faithful_entry {d : Nat} (spec : FieldSpec) {v : Value} (h : Faithful d v) :
    Faithful (d + 1) (spec.entry v) := by
  refine .object (by simp) ?_
  simp only [List.forall_mem_cons, List.not_mem_nil, false_implies, implies_true, and_true]
  exact ⟨.str _, .str _, h⟩

/-- An instance is written without loss where what is read of its fields is. -/
theorem Instance.faithful_toValue {d : Nat} {i : Instance}
    (h : ∀ spec ∈ i.rule.schema.specs, Faithful d (i.read spec).toValue) :
    Faithful (d + 3) i.toValue := by
  have hfields : Faithful (d + 2) (.list (i.rule.schema.specs.map i.fieldValue)) := by
    refine .list fun v hv => ?_
    obtain ⟨spec, hspec, rfl⟩ := List.mem_map.1 hv
    exact spec.faithful_entry (h spec hspec)
  refine .object (by simp) ?_
  simp only [List.forall_mem_cons, List.not_mem_nil, false_implies, implies_true, and_true]
  exact ⟨.str _, .str _, hfields⟩

/-- The text of an instance that was bound is read as that instance. -/
theorem readJson_toJson {r : Rule} (hshows : r.Shows) {entries : List (Value × Value)}
    {i : Instance} (h : r.bindEntries entries = .ok i)
    (hshort : ∀ name n, (name, Bound.integer n) ∈ i.bindings → n.natAbs < Value.beyondDigits) :
    ∃ text, i.toJson? = some text ∧ r.readJson text = .ok i := by
  obtain ⟨rfl, hcomplete⟩ := Instance.complete_of_bindEntries h
  have hfaithful : Faithful Json.depthLimit i.toValue := by
    refine Instance.faithful_toValue (d := 987) fun spec hspec => ?_
    obtain ⟨b, hb, hname, -⟩ := Pairs.of_mem_left hcomplete.bound hspec
    rw [hcomplete.read_eq hshows hspec hb hname]
    refine Bound.faithful_toValue (d := 986) fun n hn => hshort b.1 n ?_
    rw [← hn]
    exact hb
  refine ⟨Json.pretty i.toValue, hcomplete.toJson?_eq hshows, ?_⟩
  unfold Rule.readJson
  rw [Json.read_pretty hfaithful]
  exact hcomplete.readDocument_toValue hshows

-- ========================================================== kept and lost

/-- A rule with a field of each kind; one member of its choice has two names. -/
def mixedRule : Rule where
  name := "Mixed"
  schema := ⟨[⟨"title", .text, "title", none⟩, ⟨"count", .integer, "count", none⟩,
    ⟨"open", .boolean, "open", none⟩, ⟨"tags", .textList, "tags", none⟩,
    ⟨"level", .choice ⟨"Level", [("LOW", "low"), ("LEAST", "low")]⟩, "level", some ["low"]⟩],
    by decide⟩
  params := []
  body := fun _ _ ctx => (.ok (.value (.bool true)), ctx)

/-- Values for its fields. -/
def mixedEntries : List (Value × Value) :=
  [(.str "title", .str "\"a\\\n\x01é"), (.str "count", .int (-5)), (.str "open", .bool true),
    (.str "tags", .texts ["b", ""]), (.str "level", .str "low")]

/-- The instance that they give. -/
def mixedInstance : Instance where
  rule := mixedRule
  bindings := [("title", .text "\"a\\\n\x01é"), ("count", .integer (-5)),
    ("open", .boolean true), ("tags", .textList ["b", ""]), ("level", .member "Level" "LOW" "low")]

theorem mixedRule_declared : ∀ spec ∈ mixedRule.schema.specs, spec.Declared := by
  intro spec hspec
  have hcases : spec = ⟨"title", .text, "title", none⟩ ∨ spec = ⟨"count", .integer, "count", none⟩
      ∨ spec = ⟨"open", .boolean, "open", none⟩ ∨ spec = ⟨"tags", .textList, "tags", none⟩
      ∨ spec = ⟨"level", .choice ⟨"Level", [("LOW", "low"), ("LEAST", "low")]⟩, "level",
        some ["low"]⟩ := by
    simpa [mixedRule] using hspec
  rcases hcases with rfl | rfl | rfl | rfl | rfl
  · exact .plain rfl (show FieldSpec.declare .text (.str "title") none = .ok _ from rfl)
  · exact .plain rfl (show FieldSpec.declare .integer (.str "count") none = .ok _ from rfl)
  · exact .plain rfl (show FieldSpec.declare .boolean (.str "open") none = .ok _ from rfl)
  · exact .plain rfl (show FieldSpec.declare .textList (.str "tags") none = .ok _ from rfl)
  · exact .choice (show FieldSpec.declareChoice "Level" [("LOW", .str "low"),
      ("LEAST", .str "low")] (.str "level") none = .ok _ from by
        with_unfolding_all rfl)

theorem mixedRule_shows : mixedRule.Shows := by
  unfold Rule.Shows mixedRule Schema.extraName Schema.boundName
  decide

/-- Values of all kinds survive. -/
theorem mixedInstance_kept : mixedRule.Shows
    ∧ mixedRule.bindEntries mixedEntries = .ok mixedInstance
    ∧ ∃ text, mixedInstance.toJson? = some text ∧ mixedRule.readJson text = .ok mixedInstance := by
  have hbind : mixedRule.bindEntries mixedEntries = .ok mixedInstance := rfl
  have hshort : ∀ name n, (name, Bound.integer n) ∈ mixedInstance.bindings →
      n.natAbs < Value.beyondDigits := by
    intro name n hn
    have hcount : name = "count" ∧ n = -5 := by simpa [mixedInstance] using hn
    rw [hcount.2]
    decide +kernel
  exact ⟨mixedRule_shows, hbind, readJson_toJson mixedRule_shows hbind hshort⟩

/-- A record keeps no further keys, whatever was bound. -/
theorem Schema.read_extraName (bindings : Bindings) :
    read bindings extraName = .kept .null := by
  have hunderscores : ¬ extraName.startsWith "__" = true := by
    rw [String.startsWith_string_iff]
    decide
  unfold read
  rw [if_neg (by decide), if_neg hunderscores, if_pos rfl]

/-- The field of a rule with one whole number, which has the name of the place of
further keys. -/
def extraField : FieldSpec := ⟨Schema.extraName, .integer, Schema.extraName, none⟩

/-- The instance in which one is bound to it. -/
def extraInstance : Instance :=
  ⟨fieldRule Schema.extraName, [(Schema.extraName, .integer 1)]⟩

/-- The field is declared and bound like any other. The text of the instance has
null in the place of its value, and is refused. -/
theorem extraInstance_lost :
    (∀ spec ∈ extraInstance.rule.schema.specs, spec.Declared)
      ∧ extraInstance.rule.bindEntries [(.str Schema.extraName, .int 1)] = .ok extraInstance
      ∧ ∃ text, extraInstance.toJson? = some text
        ∧ extraInstance.rule.readJson text = .error
          (.defect (.fieldValues "Positive" [⟨[.name Schema.extraName], .notInteger⟩])) := by
  have hdecl : ∀ spec ∈ extraInstance.rule.schema.specs, spec.Declared :=
    fieldChecker_declared Schema.extraName (by decide) "Positive" _ rfl
  have hread : extraInstance.read extraField = .kept .null := Schema.read_extraName _
  have hshown : extraInstance.toValue = .object [("type", .str "rule"),
      ("rule", .str "Positive"), ("fields", .list [extraField.entry .null])] := by
    show Value.object [_, _, ("fields", .list
      [extraField.entry (extraInstance.read extraField).toValue])] = _
    rw [hread]
    rfl
  have htext : extraInstance.toJson? = some (Json.pretty extraInstance.toValue) := by
    have hset : (extraInstance.readings.any fun r => r.2.isSet) = false := by
      show ((extraInstance.read extraField).isSet || false) = false
      rw [hread]
      rfl
    unfold Instance.toJson?
    rw [hset]
    rfl
  have hfaithful : Faithful Json.depthLimit extraInstance.toValue := by
    refine Instance.faithful_toValue (d := 987) fun spec hspec => ?_
    obtain rfl : spec = extraField := List.mem_singleton.1 hspec
    rw [hread]
    exact .null
  refine ⟨hdecl, rfl, _, htext, ?_⟩
  unfold Rule.readJson
  rw [Json.read_pretty hfaithful, hshown]
  rfl

end Verdict
