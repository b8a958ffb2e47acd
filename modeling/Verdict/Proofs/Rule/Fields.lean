/-
What fields take. A field of a kind takes the values of that kind and no
others, and a rule is bound by values for exactly its fields.

# Vocabulary

- `kind.Takes v`: the value `v` is one for a field of the kind. The kinds
  bind these values (`bind_iff`).
- `spec.Refuses entries v`: the field is a choice, and its entry `v` is none of its
  options.
- `spec.Declared`: the spec was made by one of the functions that declare
  fields. The options of a declared choice are those of its members
  (`Declared.options_eq`).
- `r.Overrides field`: the field of the rule stands in the place of an operation
  that records call.

# Main statements

- `record_eq_ok`: values make a record exactly when they bind to the fields, and
  none of the fields stands in the place of an operation.
- `bindFields_iff`: values bind to a rule exactly when they are of its
  fields, each field takes its value, and a value can be bound to each.
- `overrides_of_record`: where a record finds something that it cannot call, the rule has
  a field in the place of an operation.
- `checkEntries_iff`: the entries of a rule node pass exactly when each is
  of a field under its type, and no two are of one field.
-/
import Verdict.Policy.Check
import Verdict.Proofs.Table
import Verdict.Proofs.Value.Document

namespace Verdict

-- =============================================================== kinds

/-- A value is one for a field of a kind. -/
def FieldKind.Takes : FieldKind → Value → Prop
  | .text, v => ∃ s, v = .str s
  | .integer, v => ∃ n, v = .int n
  | .boolean, v => ∃ b, v = .bool b
  | .textList, v => ∃ ss, v = .texts ss
  | .choice c, v => ∃ m ∈ c.declared, v = .str m.2

namespace FieldKind

/-- Every value of a choice is that of a member that is told apart. -/
theorem mem_membersOf {s : String} (ms : List (String × String)) :
    (∃ m ∈ Choice.membersOf ms, m.2 = s) ↔ ∃ m ∈ ms, m.2 = s := by
  induction ms with
  | nil => rfl
  | cons m ms ih =>
      simp only [Choice.membersOf, List.mem_cons, exists_eq_or_imp]
      by_cases hs : m.2 = s
      · exact iff_of_true (Or.inl hs) (Or.inl hs)
      · rw [← ih]
        refine or_congr_right (exists_congr fun n => ?_)
        rw [List.mem_filter, and_assoc]
        refine and_congr_right fun _ => ?_
        constructor
        · exact fun h => h.2
        · intro heq
          subst heq
          exact ⟨decide_eq_true (Ne.symm hs), rfl⟩

/-- A choice takes its options. -/
theorem takes_choice {c : Choice} {v : Value} :
    (choice c).Takes v ↔ ∃ option ∈ c.options, v = .str option := by
  constructor
  · rintro ⟨m, hm, rfl⟩
    obtain ⟨n, hn, hvalue⟩ := (mem_membersOf c.declared).2 ⟨m, hm, rfl⟩
    exact ⟨n.2, List.mem_map_of_mem hn, congrArg Value.str hvalue.symm⟩
  · rintro ⟨option, hoption, rfl⟩
    obtain ⟨m, hm, hvalue⟩ := List.mem_map.1 hoption
    obtain ⟨n, hn, heq⟩ := (mem_membersOf c.declared).1 ⟨m, hm, hvalue⟩
    exact ⟨n, hn, congrArg Value.str heq.symm⟩

theorem member?_iff {c : Choice} {v : Value} :
    (∃ m, c.member? v = some m) ↔ (choice c).Takes v := by
  unfold Choice.member? Takes
  split
  next s =>
    rw [← Option.isSome_iff_exists, List.find?_isSome]
    simp only [decide_eq_true_iff, Value.str.injEq, eq_comm (a := s)]
    exact mem_membersOf c.declared
  next hno =>
    constructor
    · intro h
      obtain ⟨m, h⟩ := h
      cases h
    · intro h
      obtain ⟨m, -, h⟩ := h
      exact absurd h (hno m.2)

/-- Items are taken as texts when all of them are texts. -/
theorem textItems_iff {i : Nat} {items : List Value} {ss : List String} :
    textItems i items = .ok ss ↔ items = ss.map .str := by
  induction items generalizing i ss with
  | nil => simp [textItems, eq_comm]
  | cons v items ih =>
      have hstep : textItems i (v :: items) = .ok ss ↔
          ∃ s rest, v.text? = some s ∧ textItems (i + 1) items = .ok rest
            ∧ s :: rest = ss := by
        rw [textItems]
        cases v.text? <;> cases textItems (i + 1) items <;> simp
      rw [hstep]
      cases ss with
      | nil => simp
      | cons s ss => simp [ih, Value.text?_iff]

/-- The kinds bind the values that they take. -/
theorem bind_iff {kind : FieldKind} {field : String} {v : Value} (hv : v.IsDocument) :
    (∃ b, kind.bind field v = .ok b) ↔ kind.Takes v := by
  cases kind with
  | text => cases v <;> simp [FieldKind.bind, Takes]
  | integer => cases v <;> simp [FieldKind.bind, Takes]
  | boolean => cases v <;> simp [FieldKind.bind, Takes]
  | choice c =>
      rw [← member?_iff]
      unfold FieldKind.bind
      dsimp only
      cases c.member? v <;> simp
  | textList =>
      unfold FieldKind.bind Takes itemsOf? Value.texts
      dsimp only
      rw [hv.unrolled]
      cases hv with
      | @list items _ =>
          dsimp only
          simp only [Value.list.injEq, ← textItems_iff (i := 0)]
          cases textItems 0 items <;> simp
      | _ => simp

/-- A kind binds what it takes, whatever the value is part of. -/
theorem bind_of_takes {kind : FieldKind} {v : Value} (h : kind.Takes v) (field : String) :
    ∃ b, kind.bind field v = .ok b := by
  cases kind with
  | text =>
      obtain ⟨s, rfl⟩ := h
      exact ⟨_, rfl⟩
  | integer =>
      obtain ⟨n, rfl⟩ := h
      exact ⟨_, rfl⟩
  | boolean =>
      obtain ⟨b, rfl⟩ := h
      exact ⟨_, rfl⟩
  | textList =>
      obtain ⟨ss, rfl⟩ := h
      refine ⟨.textList ss, ?_⟩
      have hitems : textItems 0 (ss.map .str) = .ok ss := textItems_iff.2 rfl
      unfold FieldKind.bind itemsOf? Value.texts Value.unrolled
      dsimp only
      rw [hitems]
  | choice c =>
      obtain ⟨m, hm⟩ := member?_iff.2 h
      refine ⟨.member c.name m.1 m.2, ?_⟩
      unfold FieldKind.bind
      dsimp only
      rw [hm]

end FieldKind

namespace FieldSpec

/-- A field is a choice, and its entry is none of its options. -/
structure Refuses (spec : FieldSpec) (entries : List (Value × Value)) (v : Value) : Prop where
  entry : Value.lookup entries spec.name = some v
  choice : ∃ c, spec.kind = .choice c
  other : ¬ spec.kind.Takes v

/-- Of values by name a choice refuses the one under its name that is none of its
options. -/
theorem refuses_iff {spec : FieldSpec} {values : Table Value} {v : Value} :
    spec.Refuses (values.map fun e => (.str e.1, e.2)) v ↔ ∃ c, spec.kind = .choice c
      ∧ values.at? spec.name = some v ∧ ∀ option ∈ c.options, v ≠ .str option := by
  constructor
  · rintro ⟨hentry, ⟨c, hc⟩, hno⟩
    rw [Value.lookup_fields] at hentry
    rw [hc, FieldKind.takes_choice] at hno
    exact ⟨c, hc, hentry, fun option hoption h => hno ⟨option, hoption, h⟩⟩
  · rintro ⟨c, hc, hv, hno⟩
    refine ⟨by rw [Value.lookup_fields, hv], ⟨c, hc⟩, ?_⟩
    rw [hc, FieldKind.takes_choice]
    exact fun ⟨option, hoption, h⟩ => hno option hoption h

/-- A choice shows what it refuses, and its options. -/
theorem resolve_eq_error {spec : FieldSpec} {v : Value} {d : Defect} :
    spec.resolve (.value v) = some (.error d) ↔ (∃ c, spec.kind = .choice c)
      ∧ ¬ spec.kind.Takes v ∧ d = .notAnOption spec.name v (spec.options.getD []) := by
  unfold resolve
  split
  next c hc =>
    rw [hc, ← FieldKind.member?_iff]
    dsimp only
    cases c.member? v <;> simp [eq_comm]
  next hno =>
    refine iff_of_false nofun ?_
    rintro ⟨⟨c, hc⟩, -⟩
    exact hno c hc

end FieldSpec

-- ======================================================== declarations

/-- A spec was made by one of the functions that declare fields. -/
inductive FieldSpec.Declared (spec : FieldSpec) : Prop where
  | plain {kind : FieldKind} {name : Value} {label : Option Value}
      (hkind : kind.isChoice = false) (h : FieldSpec.declare kind name label = .ok spec)
  | choice {choice : String} {members : List (String × Value)} {name : Value}
      {label : Option Value}
      (h : FieldSpec.declareChoice choice members name label = .ok spec)

namespace FieldSpec

/-- A spec has the kind that it was given, and the options. -/
theorem ofParts_eq_ok {name label options : Option Value}
    {kind : Except (List Detail) FieldKind} {spec : FieldSpec}
    (h : ofParts name kind label options = .ok spec) :
    kind = .ok spec.kind ∧ optionsPart options = .ok spec.options := by
  unfold ofParts at h
  dsimp only at h
  split at h
  next hname hlabel hoptions =>
    injection h with h
    rw [← h]
    exact ⟨rfl, hoptions⟩
  next => cases h

/-- Only a text is the same as a text. -/
theorem eq_of_same_str {s : String} {v : Value} (h : (Value.str s).same v = true) :
    v = .str s := by
  unfold Value.same Value.sameLeaf at h
  cases v with
  | str t => rw [of_decide_eq_true h]
  | _ => cases h

/-- Listed options are those of the list. -/
theorem optionsPart_list {items : List Value} {options : Option (List String)}
    (h : optionsPart (some (.list items)) = .ok options) :
    ∃ ss, options = some ss ∧ items = ss.map .str := by
  unfold optionsPart itemsOf? Value.unrolled at h
  dsimp only at h
  split at h
  next ss hss =>
    injection h with h
    exact ⟨ss, h.symm, FieldKind.textItems_iff.1 hss⟩
  next => cases h

/-- Members told apart as values are told apart as texts, where all of them are
texts. -/
theorem distinctMembers_eq {ms : List (String × Value)}
    (h : ∀ n ∈ distinctMembers ms, ∃ t, n.2 = .str t) :
    distinctMembers ms = (Choice.membersOf (ms.filterMap fun m =>
      m.2.text?.map fun s => (m.1, s))).map fun m => (m.1, .str m.2) := by
  induction ms with
  | nil => rfl
  | cons m ms ih =>
      obtain ⟨name, v⟩ := m
      rw [distinctMembers] at h ⊢
      obtain ⟨t, ht⟩ := h _ (List.mem_cons_self ..)
      dsimp only at ht
      subst ht
      have hrest : ∀ n ∈ distinctMembers ms, ∃ t, n.2 = .str t := by
        intro n hn
        by_cases hkept : (!(Value.str t).same n.2) = true
        · exact h n (List.mem_cons_of_mem _ (List.mem_filter.2 ⟨hn, hkept⟩))
        · rw [Bool.not_eq_true', Bool.not_eq_false] at hkept
          exact ⟨t, eq_of_same_str hkept⟩
      rw [List.filterMap_cons]
      dsimp only [Value.text?, Option.map_some]
      rw [Choice.membersOf, List.map_cons, ih hrest, List.filter_map]
      refine congrArg _ (congrArg _ (List.filter_congr fun n _ => ?_))
      have hsame : (Value.str t).same (.str n.2) = decide (t = n.2) := by
        unfold Value.same Value.sameLeaf
        rfl
      dsimp only [Function.comp_apply]
      rw [hsame, ← decide_not, decide_eq_decide]
      exact not_congr eq_comm

/-- A declared choice lists the values of its members as its options. -/
theorem Declared.options_eq {spec : FieldSpec} (h : spec.Declared) {c : Choice}
    (hc : spec.kind = .choice c) : spec.options = some c.options := by
  cases h with
  | plain hkind h =>
      obtain ⟨hok, -⟩ := ofParts_eq_ok h
      injection hok with hok
      rw [hok, hc] at hkind
      cases hkind
  | @choice choice members name label h =>
      unfold declareChoice at h
      dsimp only at h
      split at h
      next => cases h
      next =>
        split at h
        next => cases h
        next =>
          obtain ⟨hkind, hoptions⟩ := ofParts_eq_ok h
          obtain ⟨ss, hss, hvalues⟩ := optionsPart_list hoptions
          injection hkind with hkind
          rw [hc] at hkind
          injection hkind with hkind
          have htexts : ∀ n ∈ distinctMembers members, ∃ t, n.2 = .str t := by
            intro n hn
            have hvalue : n.2 ∈ ss.map Value.str := by
              rw [← hvalues]
              exact List.mem_map_of_mem (f := Prod.snd) hn
            obtain ⟨t, -, ht⟩ := List.mem_map.1 hvalue
            exact ⟨t, ht.symm⟩
          rw [distinctMembers_eq htexts, List.map_map] at hvalues
          have hmap : c.options.map Value.str = ss.map Value.str := by
            rw [← hvalues, ← hkind]
            unfold Choice.options Choice.members
            rw [List.map_map]
            rfl
          have hinj : Function.Injective Value.str := fun _ _ h => Value.str.inj h
          rw [hss, List.map_injective_iff.2 hinj hmap]

/-- A declared choice offers the values of its members. -/
theorem Declared.offers {spec : FieldSpec} (h : spec.Declared) {c : Choice}
    (hc : spec.kind = .choice c) {m : String × String} (hm : m ∈ c.declared) :
    m.2 ∈ spec.options.getD [] := by
  obtain ⟨n, hn, hvalue⟩ := (FieldKind.mem_membersOf c.declared).2 ⟨m, hm, rfl⟩
  rw [h.options_eq hc, ← hvalue]
  exact List.mem_map_of_mem hn

end FieldSpec

-- ============================================================== binding

variable {r : Rule} {values : Table Value}

namespace Schema

variable {specs : List FieldSpec} {entries : List (Value × Value)} {bindings : Bindings}

/-- Fields are bound when each is, one by one. -/
theorem bindFields_eq_ok : bindFields entries specs = .ok bindings ↔
    List.Forall₂ (fun spec b => b.1 = spec.name ∧ bindField entries spec = .ok b.2)
      specs bindings := by
  induction specs generalizing bindings with
  | nil => simp [bindFields, eq_comm]
  | cons spec specs ih =>
      rw [List.forall₂_cons_left_iff, bindFields]
      constructor
      · intro h
        split at h
        next b rest hb hrest =>
          injection h with h
          exact ⟨(spec.name, b), rest, ⟨rfl, hb⟩, ih.1 hrest, h.symm⟩
        next => cases h
        next => cases h
        next => cases h
      · intro h
        obtain ⟨⟨name, b⟩, rest, ⟨rfl, hb⟩, hrest, rfl⟩ := h
        rw [hb, ih.2 hrest]

theorem bindField_iff (hdoc : ∀ name v, Value.lookup entries name = some v → v.IsDocument)
    {spec : FieldSpec} :
    (∃ b, bindField entries spec = .ok b) ↔
      ∃ v, Value.lookup entries spec.name = some v ∧ spec.kind.Takes v := by
  unfold bindField
  cases hv : Value.lookup entries spec.name with
  | none => simp
  | some v =>
      dsimp only
      rw [FieldKind.bind_iff (hdoc _ v hv)]
      simp

/-- Fields are bound when each has a value that it takes. -/
theorem bindFields_iff (hdoc : ∀ name v, Value.lookup entries name = some v → v.IsDocument) :
    (∃ bindings, bindFields entries specs = .ok bindings) ↔
      ∀ spec ∈ specs, ∃ v, Value.lookup entries spec.name = some v
        ∧ spec.kind.Takes v := by
  induction specs with
  | nil => simp [bindFields]
  | cons spec specs ih =>
      rw [List.forall_mem_cons, ← bindField_iff hdoc, ← ih, bindFields]
      cases bindField entries spec <;> cases bindFields entries specs <;> simp

theorem bindFields_of_takes (h : ∀ spec ∈ specs, ∃ v,
    Value.lookup entries spec.name = some v ∧ spec.kind.Takes v) :
    ∃ bindings, bindFields entries specs = .ok bindings := by
  induction specs with
  | nil => exact ⟨[], rfl⟩
  | cons spec specs ih =>
      obtain ⟨⟨v, hv, htakes⟩, hrest⟩ := List.forall_mem_cons.1 h
      obtain ⟨b, hb⟩ := FieldKind.bind_of_takes htakes spec.name
      obtain ⟨bindings, hbindings⟩ := ih hrest
      have hfield : bindField entries spec = .ok b := by
        rw [bindField, hv]
        exact hb
      refine ⟨(spec.name, b) :: bindings, ?_⟩
      rw [bindFields, hfield, hbindings]

/-- No key is complained about when each is that of a field that records
hold a value for. -/
theorem undeclaredDetails_eq_nil {s : Schema} :
    s.undeclaredDetails (values.map fun e => (.str e.1, e.2)) = [] ↔
      ∀ name ∈ values.names, ∃ spec ∈ s.specs, isHeld spec = true
        ∧ spec.name = name := by
  unfold undeclaredDetails Table.names
  rw [List.map_eq_nil_iff, List.filter_eq_nil_iff, List.forall_mem_map,
    List.forall_mem_map]
  refine forall₂_congr fun e _ => ?_
  simp [isUndeclared]

theorem bindEntries_eq_ok {s : Schema} : s.bindEntries entries = .ok bindings ↔
    bindFields entries (s.specs.filter isHeld) = .ok bindings
      ∧ s.undeclaredDetails entries = [] := by
  unfold bindEntries
  cases bindFields entries (s.specs.filter isHeld) with
  | error faults => simp
  | ok bindings => cases s.undeclaredDetails entries <;> simp

theorem bindEntries_iff {s : Schema} :
    (∃ bindings, s.bindEntries entries = .ok bindings) ↔
      (∃ bindings, bindFields entries (s.specs.filter isHeld) = .ok bindings)
        ∧ s.undeclaredDetails entries = [] := by
  simp only [bindEntries_eq_ok, exists_and_right]

/-- The fields of a schema are told apart by their names. -/
theorem eq_of_name {s : Schema} {a b : FieldSpec} (ha : a ∈ s.specs) (hb : b ∈ s.specs)
    (h : a.name = b.name) : a = b :=
  List.inj_on_of_nodup_map s.names_nodup ha hb h

theorem find?_iff {s : Schema} {name : String} {spec : FieldSpec} :
    s.find? name = some spec ↔ spec ∈ s.specs ∧ spec.name = name := by
  unfold find?
  constructor
  · intro h
    have hname := List.find?_some h
    exact ⟨List.mem_of_find?_eq_some h, of_decide_eq_true hname⟩
  · intro h
    obtain ⟨hspec, rfl⟩ := h
    cases hfind : s.specs.find? fun other => other.name = spec.name with
    | none =>
        have hno := List.find?_eq_none.1 hfind spec hspec
        exact absurd (decide_eq_true rfl) hno
    | some other =>
        have hname := List.find?_some hfind
        rw [eq_of_name (List.mem_of_find?_eq_some hfind) hspec (of_decide_eq_true hname)]

/-- Where no key is complained about, records hold a value for a field that has an
entry. -/
theorem isHeld_of_declared {s : Schema} (h : s.undeclaredDetails entries = [])
    {spec : FieldSpec} (hspec : spec ∈ s.specs) {v : Value}
    (hentry : (.str spec.name, v) ∈ entries) : isHeld spec = true := by
  unfold undeclaredDetails at h
  rw [List.map_eq_nil_iff, List.filter_eq_nil_iff] at h
  have hdeclared := h _ hentry
  unfold isUndeclared at hdeclared
  dsimp only at hdeclared
  rw [Bool.not_eq_true', Bool.not_eq_false, List.any_eq_true] at hdeclared
  obtain ⟨other, hother, hb⟩ := hdeclared
  rw [Bool.and_eq_true, decide_eq_true_iff] at hb
  rw [← eq_of_name hother hspec hb.2]
  exact hb.1

-- ============================================================= records

theorem isBindable_iff {spec : FieldSpec} :
    isBindable spec = true ↔ isHeld spec = true ∧ spec.name ≠ finisherName := by
  unfold isBindable
  rw [Bool.and_eq_true, decide_eq_true_iff]

/-- The name of the operation that makes a record begins with an underscore. -/
theorem ne_makerName {spec : FieldSpec} (h : isHeld spec = true) : spec.name ≠ makerName := by
  intro heq
  unfold isHeld at h
  rw [heq] at h
  exact absurd h (by decide)

/-- Values make a record when they bind to the fields, unless a field stands in the place
of an operation. -/
theorem record_eq_ok {s : Schema} : s.record entries = .ok bindings ↔
    makerName ∉ s.names ∧ finisherName ∉ s.names ∧ s.bindEntries entries = .ok bindings := by
  unfold record
  by_cases hmaker : makerName ∈ s.names
  · simp [hmaker]
  · rw [if_neg (by simpa using hmaker)]
    cases hbind : s.bindEntries entries with
    | error details => simp
    | ok bound =>
        cases hfind : s.find? finisherName with
        | some spec =>
            have hfinisher : finisherName ∈ s.names := by
              obtain ⟨hspec, hname⟩ := find?_iff.1 hfind
              exact hname ▸ List.mem_map_of_mem hspec
            simp [hfinisher]
        | none =>
            have hfinisher : finisherName ∉ s.names := by
              intro hmem
              obtain ⟨spec, hspec, hname⟩ := List.mem_map.1 hmem
              rw [find?_iff.2 ⟨hspec, hname⟩] at hfind
              cases hfind
            simp [hmaker, hfinisher]

/-- Values are complained about where they do not bind to the fields. -/
theorem record_eq_details {s : Schema} {details : List Detail} :
    s.record entries = .error (.details details) ↔
      makerName ∉ s.names ∧ s.bindEntries entries = .error details := by
  unfold record
  by_cases hmaker : makerName ∈ s.names
  · simp [hmaker]
  · rw [if_neg (by simpa using hmaker)]
    cases s.bindEntries entries with
    | error details => simp [hmaker]
    | ok bound => cases s.find? finisherName <;> simp

/-- A record finds a field in the place of the operation that makes it, whatever the values
are, or it ends with one that it has bound. -/
theorem record_eq_uncallable {s : Schema} {field found : String} :
    s.record entries = .error (.uncallable field found) ↔
      (makerName ∈ s.names ∧ field = makerName ∧ found = "ellipsis")
        ∨ (makerName ∉ s.names ∧ (∃ bindings, s.bindEntries entries = .ok bindings)
          ∧ ∃ spec ∈ s.specs, spec.name = finisherName ∧ field = finisherName
            ∧ found = spec.kind.boundName) := by
  unfold record
  by_cases hmaker : makerName ∈ s.names
  · simp [hmaker, eq_comm]
  · rw [if_neg (by simpa using hmaker), or_iff_right fun h => hmaker h.1]
    cases hbind : s.bindEntries entries with
    | error details => simp
    | ok bound =>
        cases hfind : s.find? finisherName with
        | some spec =>
            obtain ⟨hspec, hname⟩ := find?_iff.1 hfind
            dsimp only
            constructor
            · rintro ⟨⟩
              exact ⟨hmaker, ⟨_, rfl⟩, spec, hspec, hname, rfl, rfl⟩
            · rintro ⟨-, -, other, hother, heq, rfl, rfl⟩
              rw [eq_of_name hother hspec (heq.trans hname.symm)]
        | none =>
            refine iff_of_false nofun ?_
            rintro ⟨-, -, spec, hspec, hname, -⟩
            rw [find?_iff.2 ⟨hspec, hname⟩] at hfind
            cases hfind

end Schema

namespace Rule

theorem undeclaredKey?_eq_none :
    r.undeclaredKey? (values.map fun e => (.str e.1, e.2)) = none ↔
      ∀ name ∈ values.names, name ∈ r.schema.names := by
  induction values with
  | nil => simp [undeclaredKey?]
  | cons e values ih =>
      obtain ⟨key, v⟩ := e
      rw [List.map_cons, undeclaredKey?, Table.names_cons, List.forall_mem_cons, ← ih]
      dsimp only
      by_cases hkey : key ∈ r.schema.names
      · simp [hkey]
      · simp [hkey]

theorem missingNames_eq_nil :
    r.missingNames (values.map fun e => (.str e.1, e.2)) = [] ↔
      ∀ spec ∈ r.schema.specs, ∃ v, values.at? spec.name = some v := by
  unfold missingNames Schema.names
  rw [List.filter_eq_nil_iff, List.forall_mem_map]
  refine forall₂_congr fun spec _ => ?_
  rw [Value.lookup_fields]
  cases values.at? spec.name <;> simp

section options

variable {entries : List (Value × Value)} {specs : List FieldSpec} {first : FieldSpec} {v : Value}

/-- A choice that refuses its entry decides. -/
theorem optionDefect?_of_refuses (h : first.Refuses entries v) :
    optionDefect? entries (first :: specs)
      = some (.notAnOption first.name v (first.options.getD [])) := by
  have hresolve : (Value.lookup entries first.name).bind (fun v => first.resolve (.value v))
      = some (.error (.notAnOption first.name v (first.options.getD []))) := by
    rw [h.entry]
    exact FieldSpec.resolve_eq_error.2 ⟨h.choice, h.other, rfl⟩
  rw [optionDefect?, hresolve]

/-- One that does not leaves it to the others. -/
theorem optionDefect?_of_not_refuses (h : ∀ v, ¬ first.Refuses entries v) :
    optionDefect? entries (first :: specs) = optionDefect? entries specs := by
  rw [optionDefect?]
  split
  next e he =>
    obtain ⟨v, hv, hd⟩ := Option.bind_eq_some_iff.1 he
    obtain ⟨hchoice, hother, -⟩ := FieldSpec.resolve_eq_error.1 hd
    exact absurd ⟨hv, hchoice, hother⟩ (h v)
  next => rfl

/-- The first choice that refuses its entry decides. -/
theorem optionDefect?_eq_some {d : Defect} : optionDefect? entries specs = some d ↔
    ∃ before spec after v, specs = before ++ spec :: after
      ∧ (∀ other ∈ before, ∀ w, ¬ other.Refuses entries w) ∧ spec.Refuses entries v
      ∧ d = .notAnOption spec.name v (spec.options.getD []) := by
  induction specs with
  | nil => simp [optionDefect?]
  | cons first specs ih =>
      by_cases hfirst : ∃ w, first.Refuses entries w
      · obtain ⟨w, hw⟩ := hfirst
        rw [optionDefect?_of_refuses hw]
        constructor
        · intro h
          exact ⟨[], first, specs, w, rfl, nofun, hw, (Option.some.inj h).symm⟩
        · rintro ⟨before, spec, after, v, hsplit, hbefore, hv, rfl⟩
          cases before with
          | nil =>
              injection hsplit with hspec _
              subst hspec
              rw [Option.some.inj (hw.entry.symm.trans hv.entry)]
          | cons other before =>
              injection hsplit with hother _
              exact absurd hw (hother ▸ hbefore other (List.mem_cons_self ..) w)
      · have hno : ∀ w, ¬ first.Refuses entries w := fun w hw => hfirst ⟨w, hw⟩
        rw [optionDefect?_of_not_refuses hno, ih]
        constructor
        · rintro ⟨before, spec, after, v, rfl, hbefore, hv⟩
          exact ⟨first :: before, spec, after, v, rfl, List.forall_mem_cons.2 ⟨hno, hbefore⟩, hv⟩
        · rintro ⟨before, spec, after, v, hsplit, hbefore, hv⟩
          cases before with
          | nil =>
              injection hsplit with hspec _
              exact absurd (hspec ▸ hv.1) (hno v)
          | cons other before =>
              injection hsplit with _ hspecs
              exact ⟨before, spec, after, v, hspecs,
                (List.forall_mem_cons.1 hbefore).2, hv⟩

end options

theorem optionDefect?_eq_none {specs : List FieldSpec}
    (h : ∀ spec ∈ specs, ∃ v, values.at? spec.name = some v ∧ spec.kind.Takes v) :
    optionDefect? (values.map fun e => (.str e.1, e.2)) specs = none := by
  refine Option.eq_none_iff_forall_ne_some.2 fun d hd => ?_
  obtain ⟨before, spec, after, w, rfl, -, hw, -⟩ := optionDefect?_eq_some.1 hd
  obtain ⟨v, hv, htakes⟩ := h spec (by simp)
  have hentry := hw.entry
  rw [Value.lookup_fields, hv] at hentry
  exact hw.other (Option.some.inj hentry ▸ htakes)

/-- Entries bind to a rule only if they are of its fields, a value can be bound to
each field, and each is bound to what its kind makes of the value it has. -/
theorem bindEntries_eq_ok {entries : List (Value × Value)} {i : Instance}
    (h : r.bindEntries entries = .ok i) :
    i.rule = r ∧ r.undeclaredKey? entries = none
      ∧ (∀ spec ∈ r.schema.specs, Schema.isBindable spec = true)
      ∧ List.Forall₂ (fun spec b => b.1 = spec.name ∧
        ∃ v, Value.lookup entries spec.name = some v ∧ spec.kind.bind spec.name v = .ok b.2)
        r.schema.specs i.bindings := by
  unfold bindEntries at h
  split at h
  next => cases h
  next hkeys =>
    dsimp only at h
    split at h
    next => cases h
    next hmissing =>
      rw [Bool.not_eq_true', Bool.not_eq_false, List.isEmpty_iff] at hmissing
      split at h
      next => cases h
      next =>
        split at h
        next bindings hb =>
          injection h with h
          subst h
          obtain ⟨-, hfinisher, hb⟩ := Schema.record_eq_ok.1 hb
          obtain ⟨hfields, hnone⟩ := Schema.bindEntries_eq_ok.1 hb
          have hheld : ∀ spec ∈ r.schema.specs, Schema.isHeld spec = true := by
            intro spec hspec
            have hvalue := List.filter_eq_nil_iff.1 hmissing spec.name (List.mem_map_of_mem hspec)
            rw [Option.isNone_iff_eq_none, ← ne_eq, Option.ne_none_iff_exists'] at hvalue
            obtain ⟨v, hv⟩ := hvalue
            exact Schema.isHeld_of_declared hnone hspec (Value.mem_of_lookup hv)
          have hbindable : ∀ spec ∈ r.schema.specs, Schema.isBindable spec = true := by
            intro spec hspec
            exact Schema.isBindable_iff.2 ⟨hheld spec hspec, fun heq =>
              hfinisher (heq ▸ List.mem_map_of_mem hspec)⟩
          rw [List.filter_eq_self.2 hheld, Schema.bindFields_eq_ok] at hfields
          refine ⟨rfl, hkeys, hbindable, hfields.imp fun spec b hb => ⟨hb.1, ?_⟩⟩
          have hfield := hb.2
          unfold Schema.bindField at hfield
          split at hfield
          next => cases hfield
          next v hv => exact ⟨v, hv, hfield⟩
        next => cases h

/-- Values bind to a rule when they are of its fields, each field takes the
value that it has, and is a field that a value can be bound to. -/
theorem bindFields_iff (hdoc : ∀ name v, values.at? name = some v → v.IsDocument) :
    (∃ i, r.bindFields values = .ok i) ↔
      (∀ name ∈ values.names, name ∈ r.schema.names)
        ∧ ∀ spec ∈ r.schema.specs, Schema.isBindable spec = true
          ∧ ∃ v, values.at? spec.name = some v ∧ spec.kind.Takes v := by
  have hlook : ∀ name v,
      Value.lookup (values.map fun e => (.str e.1, e.2)) name = some v → v.IsDocument := by
    intro name v hv
    rw [Value.lookup_fields] at hv
    exact hdoc name v hv
  have hbinds : (∃ bindings, r.schema.bindEntries
      (values.map fun e => (.str e.1, e.2)) = .ok bindings) ↔ _ :=
    Schema.bindEntries_iff
  rw [Schema.bindFields_iff hlook, Schema.undeclaredDetails_eq_nil] at hbinds
  simp only [Value.lookup_fields, List.mem_filter, and_imp] at hbinds
  constructor
  · intro h
    obtain ⟨i, h⟩ := h
    obtain ⟨-, hkeys, hspecs, hall⟩ := bindEntries_eq_ok h
    refine ⟨undeclaredKey?_eq_none.1 hkeys, fun spec hspec => ⟨hspecs spec hspec, ?_⟩⟩
    obtain ⟨b, -, -, v, hv, hb⟩ := Pairs.of_mem_left hall hspec
    rw [Value.lookup_fields] at hv
    exact ⟨v, hv, (FieldKind.bind_iff (hdoc _ v hv)).1 ⟨_, hb⟩⟩
  · intro h
    obtain ⟨hnames, hspecs⟩ := h
    have hvalues := fun spec hspec => (hspecs spec hspec).2
    have hbindable := fun spec hspec => Schema.isBindable_iff.1 (hspecs spec hspec).1
    obtain ⟨bindings, hb⟩ := hbinds.2 ⟨fun spec hspec _ => hvalues spec hspec, by
      intro name hname
      obtain ⟨spec, hspec, heq⟩ := List.mem_map.1 (hnames name hname)
      exact ⟨spec, hspec, (hbindable spec hspec).1, heq⟩⟩
    have hrecord := Schema.record_eq_ok.2 ⟨?_, ?_, hb⟩
    · unfold bindFields bindEntries
      rw [undeclaredKey?_eq_none.2 hnames]
      dsimp only
      rw [missingNames_eq_nil.2 fun spec hspec => (hvalues spec hspec).imp fun v h => h.1,
        optionDefect?_eq_none hvalues, hrecord]
      exact ⟨_, rfl⟩
    · intro hmaker
      obtain ⟨spec, hspec, heq⟩ := List.mem_map.1 hmaker
      exact Schema.ne_makerName (hbindable spec hspec).1 heq
    · intro hfinisher
      obtain ⟨spec, hspec, heq⟩ := List.mem_map.1 hfinisher
      exact (hbindable spec hspec).2 heq

/-- The field of the rule stands in the place of an operation that records call. -/
def Overrides (r : Rule) (field : String) : Prop :=
  field ∈ r.schema.names ∧ (field = Schema.makerName ∨ field = Schema.finisherName)

/-- Where a record finds what it cannot call, that is the field of a rule. -/
theorem overrides_of_record {entries : List (Value × Value)} {field found : String}
    (h : r.schema.record entries = .error (.uncallable field found)) : r.Overrides field := by
  rcases Schema.record_eq_uncallable.1 h with
    ⟨hmem, rfl, -⟩ | ⟨-, -, spec, hspec, hname, rfl, -⟩
  · exact ⟨hmem, .inl rfl⟩
  · exact ⟨hname ▸ List.mem_map_of_mem hspec, .inr rfl⟩

/-- The entries of a rule node pass when each is of a field under its type,
and no two are of one field. -/
theorem checkEntries_iff {fields : List FieldEntry} {seen : List String} :
    Checker.checkEntries r seen fields = .ok () ↔
      (∀ entry ∈ fields, ∃ spec ∈ r.schema.specs, spec.name = entry.name
        ∧ spec.kind.tag = entry.type)
        ∧ (fields.map (·.name)).Nodup ∧ ∀ entry ∈ fields, entry.name ∉ seen := by
  induction fields generalizing seen with
  | nil => simp [Checker.checkEntries]
  | cons entry fields ih =>
      rw [Checker.checkEntries, List.forall_mem_cons, List.forall_mem_cons, List.map_cons,
        List.nodup_cons]
      split
      next spec hfind =>
        obtain ⟨hspec, hname⟩ := Schema.find?_iff.1 hfind
        have hfield : (∃ spec ∈ r.schema.specs, spec.name = entry.name
            ∧ spec.kind.tag = entry.type) ↔ spec.kind.tag = entry.type := by
          constructor
          · intro h
            obtain ⟨other, hother, heq, htag⟩ := h
            rwa [Schema.eq_of_name hspec hother (hname.trans heq.symm)]
          · exact fun htag => ⟨spec, hspec, hname, htag⟩
        rw [hfield]
        by_cases htag : spec.kind.tag = entry.type
        · rw [if_neg (not_not.2 htag)]
          by_cases hseen : entry.name ∈ seen
          · rw [if_pos (List.contains_iff_mem.2 hseen)]
            simp [hseen]
          · rw [if_neg (fun h => hseen (List.contains_iff_mem.1 h)), ih]
            simp only [List.mem_cons, not_or, List.mem_map, not_exists, not_and]
            constructor
            · intro h
              obtain ⟨hfields, hnd, hnew⟩ := h
              exact ⟨⟨htag, hfields⟩, ⟨fun e he => (hnew e he).1, hnd⟩, hseen,
                fun e he => (hnew e he).2⟩
            · intro h
              obtain ⟨⟨-, hfields⟩, ⟨hne, hnd⟩, -, hnew⟩ := h
              exact ⟨hfields, hnd, fun e he => ⟨hne e he, hnew e he⟩⟩
        · rw [if_pos htag]
          simp [htag]
      next hnone =>
        have hno : ¬ ∃ spec ∈ r.schema.specs, spec.name = entry.name
            ∧ spec.kind.tag = entry.type := by
          intro h
          obtain ⟨spec, hspec, hname, -⟩ := h
          rw [Schema.find?_iff.2 ⟨hspec, hname⟩] at hnone
          cases hnone
        simp [hno]

end Rule

end Verdict
