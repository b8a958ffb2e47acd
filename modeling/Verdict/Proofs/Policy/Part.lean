/-
Parts of policies. Some expressions of a policy that refer to no others are a
policy by themselves, and mean in it what they meant before. An expression is
checked and evaluated down to what it refers to and no further, so nothing
else that is declared can make a difference to it.

# Vocabulary

- `Enclosed es keep`: the expressions of the names that are kept refer to such
  names only.
- `document.restricted keep`: the document with the expressions of those names
  and no others.
- `document.expression? name`: what a document declares under a name.

# Main statements

- `check_of_part`, `build_of_part`: a document with an enclosed part of the
  expressions of one that is accepted is accepted too.
- `Safe.run_agree`: where two resolvers agree on enclosed names, evaluating such
  a name is the same in both.
- `build_restricted`: a policy can be restricted to enclosed names, and what it
  says under them depends on nothing else.
-/
import Verdict.Proofs.Policy.Limit

namespace Verdict

/-- No expression of a name that is kept refers to one that is not. -/
def Enclosed {ρ : Type} (es : Expressions ρ) (keep : String → Prop) : Prop :=
  ∀ e ∈ es, keep e.1 → ∀ name, e.2.Refers name → keep name

namespace Value

-- ============================================================ documents

/-- A mapping with what stands under a key changed. -/
def update (key : String) (f : Value → Value) (v : Value) : Value :=
  match v.unrolled with
  | .map entries =>
      .map (entries.map fun e => if e.1.text? = some key then (e.1, f e.2) else e)
  | _ => v

/-- A mapping with the entries of the keys that are kept. -/
def only (keep : String → Bool) (v : Value) : Value :=
  match v.unrolled with
  | .map entries => .map (entries.filter fun e => e.1.text?.any keep)
  | _ => v

/-- A policy document with the expressions of the names that are kept. -/
def restricted (keep : String → Bool) (document : Value) : Value :=
  document.update "expressions" (only keep)

/-- What a policy document declares under a name. -/
def expression? (document : Value) (name : String) : Option Value :=
  (document.get? "expressions").bind fun v => v.get? name

variable {v : Value} {key other : String} {f : Value → Value} {entries : List (Value × Value)}

theorem lookup_update :
    lookup (entries.map fun e => if e.1.text? = some key then (e.1, f e.2) else e) other =
      if other = key then (lookup entries other).map f else lookup entries other := by
  induction entries with
  | nil => split <;> rfl
  | cons e entries ih =>
      obtain ⟨k, u⟩ := e
      rw [List.map_cons]
      by_cases hk : ∃ s, k = .str s
      · obtain ⟨s, rfl⟩ := hk
        by_cases hs : s = other
        · subst hs
          by_cases hkey : s = key
          · simp [lookup, text?, hkey]
          · simp [lookup, text?, hkey]
        · rw [lookup, if_neg hs, ← ih]
          by_cases hkey : s = key
          · simp [lookup, text?, hkey, hkey ▸ hs]
          · simp [lookup, text?, hkey, hs]
      · have htext : k.text? ≠ some key := fun h => hk ⟨key, text?_iff.1 h⟩
        have hno : ∀ s, k ≠ .str s := fun s h => hk ⟨s, h⟩
        rw [if_neg htext, lookup_cons_of_ne hno, lookup_cons_of_ne hno, ih]

/-- A change under one key is seen under that key alone. -/
theorem get?_update : (v.update key f).get? other =
    if other = key then (v.get? other).map f else v.get? other := by
  unfold update get?
  cases hv : v.unrolled with
  | map entries => exact lookup_update
  | _ => simp [hv]

/-- Of names, those that are kept are left. -/
theorem only_eq {raws : Table Value} (keep : String → Bool)
    (hv : v.unrolled = .map (raws.map fun e => (.str e.1, e.2))) :
    v.only keep = .map ((raws.filter fun e => keep e.1).map fun e => (.str e.1, e.2)) := by
  unfold only
  rw [hv]
  dsimp only
  rw [List.filter_map]
  rfl

end Value

variable {ρ σ : Type} {es es' : Expressions ρ} {keep : String → Prop}

-- ============================================================ references

theorem Enclosed.of_at? (h : Enclosed es keep) {name other : String} {e : Expr ρ}
    (hname : keep name) (he : es.at? name = some e) (hother : e.Refers other) : keep other :=
  h _ (Table.mem_of_at? he) hname other hother

theorem enclosed_map (f : ρ → σ) :
    Enclosed (es.map fun e => (e.1, e.2.map f)) keep ↔ Enclosed es keep := by
  unfold Enclosed
  rw [List.forall_mem_map]
  exact forall₂_congr fun e _ => by simp only [Expr.refers_map]

/-- A part has no circle that the whole has not. -/
theorem NoCircle.of_part (h : NoCircle es) (hpart : Table.Part es' es) : NoCircle es' := by
  intro x hx
  refine h x (Relation.TransGen.mono (fun a y hrefers => ?_) _ _ hx)
  obtain ⟨e, he, hy, hmem⟩ := hrefers
  exact ⟨e, hpart.at?_of he, hy, hpart.mem_names hmem⟩

/-- In an enclosed part expressions expand to what they expanded to. -/
theorem Expr.Expands.of_part {name : String} {e t : Expr ρ} (h : Expr.Expands es.at? e t)
    (hpart : Table.Part es' es) (hclosed : Enclosed es (· ∈ es'.names))
    (he : es'.at? name = some e) : Expr.Expands es'.at? e t :=
  h.agree hpart.at?_eq (fun _ _ hname hd _ => hclosed.of_at? hname hd)
    fun _ => hclosed.of_at? (Table.mem_names_of_at? he) (hpart.at?_of he)

-- =============================================================== checks

variable {b : Builder} {c : Checker} {p : Policy} {r r' : Resolver} {document document' : Value}
  {rules rules' : List String} {raws raws' : Table Value}

/-- A document with an enclosed part of the expressions of one that passes, and
with its rules or more, passes too. -/
theorem check_of_part (hp : c.check document = .ok p)
    (hparts : c.checkDocument document = .ok (rules, raws))
    (hparts' : c.checkDocument document' = .ok (rules', raws'))
    (hrules : ∀ rule ∈ rules, rule ∈ rules') (hraws : raws'.Part raws)
    (hclosed : Enclosed p.expressions (· ∈ raws'.names)) :
    ∃ es, c.check document' = .ok ⟨c.ruleset.name, rules', es⟩
      ∧ Table.Part es p.expressions ∧ es.names = raws'.names := by
  obtain ⟨-, raws₀, hparts₀, hes, hreferences⟩ := check_eq_ok_iff.1 hp
  obtain ⟨rfl, rfl⟩ : p.rules = rules ∧ raws₀ = raws :=
    Prod.mk.inj (Except.ok.inj (hparts₀.symm.trans hparts))
  obtain ⟨es, hes', hpart⟩ := hraws.exists_forall₂
    (R := fun raw e => Expr.parse c.limit raw = .ok e
      ∧ c.checkExpr raws₀.names p.rules e = .ok ())
    (checkNamed_iff.1 hes) fun _ _ _ h h' => Except.ok.inj (h.1.symm.trans h'.1)
  have hnames : raws'.names = Table.names es := Pairs.map_eq hes' fun _ _ h => h.1
  rw [hnames] at hclosed ⊢
  refine ⟨es, check_eq_ok_iff.2 ⟨rfl, raws', hparts', checkNamed_iff.2 ?_, ?_⟩, hpart, rfl⟩
  · refine Pairs.imp_of_mem hes' fun raw hraw e he h => ⟨h.1, h.2.1, ?_⟩
    refine checkExpr_of_names h.2.2 hrules fun name hname => ?_
    rw [hnames]
    exact hclosed e (hpart.mem e he) (List.mem_map_of_mem he) name hname
  · obtain ⟨hcircle, hshallow⟩ := expands_of_checkReferences hreferences
    refine checkReferences_of_expands (hcircle.of_part hpart) fun x e he => ?_
    obtain ⟨t, ht, hle⟩ := hshallow x e (hpart.at?_of he)
    exact ⟨t, ht.of_part hpart hclosed he, hle⟩

/-- So the part is built, and to the same expressions. -/
theorem build_of_part (h : (b.build (.document document)).value = .ok r)
    (hparts : b.checker.checkDocument document = .ok (rules, raws))
    (hparts' : b.checker.checkDocument document' = .ok (rules', raws'))
    (hrules : ∀ rule ∈ rules, rule ∈ rules') (hraws : raws'.Part raws)
    (hclosed : Enclosed r.expressions (· ∈ raws'.names)) :
    ∃ r', (b.build (.document document')).value = .ok r'
      ∧ Table.Part r'.expressions r.expressions ∧ r'.names = raws'.names := by
  obtain ⟨_, p, hdocument, hp, hr⟩ := build_eq_ok_iff.1 h
  obtain rfl : document = _ := Except.ok.inj hdocument
  obtain ⟨bound, hbound, rfl⟩ := resolverOf_iff.1 hr
  rw [← enclosed_map BoundRef.ref, ← (bindNamed_eq_ok hbound).1] at hclosed
  obtain ⟨es, hes, hpart, hnames⟩ := check_of_part hp hparts hparts' hrules hraws hclosed
  obtain ⟨bound', hbound', hpart'⟩ := hpart.exists_forall₂
    (R := fun (e : Expr RuleRef) e' => e.bindLeaves b.bindRef = .ok e') (bindNamed_iff.1 hbound)
    fun _ _ _ h h' => Except.ok.inj (h.symm.trans h')
  refine ⟨⟨some b.ruleset.name, b.rulesOf rules', bound'⟩, ?_, hpart', ?_⟩
  · exact build_eq_ok_iff.2 ⟨document', _, rfl, hes,
      resolverOf_iff.2 ⟨bound', bindNamed_iff.2 hbound', rfl⟩⟩
  · rw [← hnames]
    exact (Pairs.map_eq hbound' fun _ _ h => h.1).symm

-- ============================================================ evaluation

/-- Where two resolvers agree on enclosed names, evaluating one of these names
ends alike in both, after the same calls. -/
theorem Resolver.Safe.run_agree {limit limit' : Int} (h : r.Safe limit) (h' : r'.Safe limit')
    (hagree : ∀ name, keep name → r'.expressions.at? name = r.expressions.at? name)
    (hclosed : Enclosed r.expressions keep) {name : String} (hname : name ∈ r.names)
    (hkeep : keep name) (ctx : Context) : r'.run name ctx = r.run name ctx := by
  obtain ⟨e, he⟩ := Table.exists_at? hname
  obtain ⟨t, ht, -⟩ := h.shallow name e he
  have he' : r'.expressions.at? name = some e := (hagree name hkeep).trans he
  have ht' : Expr.Expands r'.expressions.at? e t :=
    ht.agree hagree (fun _ _ hname hd _ => hclosed.of_at? hname hd)
      fun _ => hclosed.of_at? hkeep he
  -- both evaluations are that of the one expansion
  obtain ⟨o, final, d, -, -, hexp, hrun⟩ := h.evaluates he ht ctx
  obtain ⟨o', final', d', -, -, hexp', hrun'⟩ := h'.evaluates he' ht' ctx
  obtain ⟨rfl, rfl⟩ := (hexp r.find).unique (hexp' r.find)
  rw [hrun, hrun']

-- =========================================================== restriction

/-- A restricted document has the rules that it had, and the expressions of the
names that are kept. -/
theorem checkDocument_restricted (keep : String → Bool)
    (h : c.checkDocument document = .ok (rules, raws)) :
    c.checkDocument (document.restricted keep)
      = .ok (rules, raws.filter fun e => keep e.1) := by
  obtain ⟨hruleset, ⟨found, hfound, hrules⟩, hregistered, v, entries, hv, hentries, hraws⟩ :=
    checkDocument_eq_ok_iff.1 h
  obtain ⟨rfl, hnamed⟩ := namedExpressions_eq_ok.1 hraws
  have hother : ∀ key, key ≠ "expressions" →
      (document.restricted keep).get? key = document.get? key := by
    intro key hkey
    unfold Value.restricted
    rw [Value.get?_update, if_neg hkey]
  have hkept : (document.restricted keep).get? "expressions" = some (v.only keep) := by
    unfold Value.restricted
    rw [Value.get?_update, if_pos rfl, hv]
    rfl
  refine checkDocument_eq_ok_iff.2 ⟨?_, ⟨found, ?_, hrules⟩, hregistered, v.only keep, _, hkept,
    ?_, namedExpressions_eq_ok.2 ⟨rfl, fun name hname => ?_⟩⟩
  · rw [hother _ (by decide), hruleset]
  · rw [hother _ (by decide), hfound]
  · rw [Value.only_eq keep hentries]
    rfl
  · exact hnamed name ((Table.Part.filter keep raws).mem_names hname)

/-- What a document declares under a name is what the check finds there. -/
theorem expression?_eq (h : c.checkDocument document = .ok (rules, raws)) (name : String) :
    document.expression? name = raws.at? name := by
  obtain ⟨-, -, -, v, entries, hv, hentries, hraws⟩ := checkDocument_eq_ok_iff.1 h
  obtain ⟨rfl, -⟩ := namedExpressions_eq_ok.1 hraws
  unfold Value.expression?
  rw [hv]
  show v.get? name = raws.at? name
  unfold Value.get?
  rw [hentries]
  exact Value.lookup_fields raws name

/-- What a resolver has under a name is what the document declares there, read
and bound. -/
theorem expression_of_build (h : (b.build (.document document)).value = .ok r) {name : String}
    {e : Expr BoundRef} (he : r.expressions.at? name = some e) :
    ∃ raw d, document.expression? name = some raw ∧ Expr.parse b.checker.limit raw = .ok d
      ∧ d.bindLeaves b.bindRef = .ok e := by
  obtain ⟨_, p, hdocument, hp, hr⟩ := build_eq_ok_iff.1 h
  obtain rfl : document = _ := Except.ok.inj hdocument
  obtain ⟨-, raws, hparts, hes, -⟩ := check_eq_ok_iff.1 hp
  obtain ⟨bound, hbound, rfl⟩ := resolverOf_iff.1 hr
  obtain ⟨d, hd, hbind⟩ := Table.exists_partner (R := fun e (d : Expr RuleRef) =>
    d.bindLeaves b.bindRef = .ok e)
    ((bindNamed_iff.1 hbound).flip.imp fun _ _ h => ⟨h.1.symm, h.2⟩) he
  obtain ⟨raw, hraw, hparse⟩ := Table.exists_partner (R := fun d raw =>
    Expr.parse b.checker.limit raw = .ok d)
    ((checkNamed_iff.1 hes).flip.imp fun _ _ h => ⟨h.1.symm, h.2.1⟩) hd
  exact ⟨raw, d, (expression?_eq hparts name).trans hraw, hparse, hbind⟩

/-- The names of a resolver are those under which the document declares something. -/
theorem mem_names_of_build (h : (b.build (.document document)).value = .ok r) {name : String} :
    name ∈ r.names ↔ ∃ raw, document.expression? name = some raw := by
  obtain ⟨rules, raws, hparts, hnames⟩ := parts_of_build rfl h
  rw [hnames, expression?_eq hparts]
  constructor
  · exact Table.exists_at?
  · intro h
    obtain ⟨raw, hraw⟩ := h
    exact Table.mem_names_of_at? hraw

/-- Two resolvers for one ruleset have the same under a name if their documents
do, whatever the limits. -/
theorem at?_eq_of_builds {b' : Builder} (hruleset : b'.ruleset = b.ruleset)
    (h : (b.build (.document document)).value = .ok r)
    (h' : (b'.build (.document document')).value = .ok r') {name : String}
    (hsame : document'.expression? name = document.expression? name) :
    r'.expressions.at? name = r.expressions.at? name := by
  have hmem : name ∈ r'.names ↔ name ∈ r.names := by
    rw [mem_names_of_build h, mem_names_of_build h', hsame]
  cases he : r.expressions.at? name with
  | none =>
      have hnot : name ∉ r.names := Table.at?_eq_none_iff.1 he
      exact Table.at?_eq_none_iff.2 (hnot ∘ hmem.1)
  | some e =>
      obtain ⟨e', he'⟩ := Table.exists_at? (hmem.2 (Table.mem_names_of_at? he))
      obtain ⟨raw, d, hraw, hparse, hbind⟩ := expression_of_build h he
      obtain ⟨raw', d', hraw', hparse', hbind'⟩ := expression_of_build h' he'
      rw [hsame, hraw] at hraw'
      obtain rfl : raw = raw' := Option.some.inj hraw'
      obtain rfl : d = d' := Expr.parse_unique hparse hparse'
      have hbinder : b'.bindRef = b.bindRef := by
        funext ref
        unfold Builder.bindRef
        rw [hruleset]
      rw [hbinder, hbind] at hbind'
      rw [he', Except.ok.inj hbind']

/-- A policy can be restricted to names whose expressions refer to no others. The
restricted document is accepted, and evaluating one of the names that are left
ends as it did, after the same calls. So the meaning of enclosed names depends on
what is declared under them and on nothing else: of any two policies for a ruleset
that declare the same there, evaluating one of them ends alike in both. -/
theorem build_restricted {keep : String → Bool}
    (h : (b.build (.document document)).value = .ok r)
    (hclosed : Enclosed r.expressions fun name => keep name = true) :
    (∃ r', (b.build (.document (document.restricted keep))).value = .ok r'
        ∧ r'.names = r.names.filter keep
        ∧ ∀ name ∈ r'.names, ∀ ctx, (r'.evaluate name ctx).value = (r.evaluate name ctx).value)
      ∧ ∀ (b' : Builder) (other : Value) (r' : Resolver), b'.ruleset = b.ruleset →
        (b'.build (.document other)).value = .ok r' →
        (∀ name, keep name = true → other.expression? name = document.expression? name) →
        ∀ name ∈ r.names, keep name = true →
          ∀ ctx, (r'.evaluate name ctx).value = (r.evaluate name ctx).value := by
  have hsafe := build_safe h
  constructor
  · obtain ⟨rules, raws, hparts, hraws⟩ := parts_of_build rfl h
    have hnames : Table.names (raws.filter fun e => keep e.1) = r.names.filter keep := by
      rw [hraws]
      unfold Table.names
      rw [List.filter_map]
      rfl
    -- what is referred to is kept, and it is declared
    have hkept : Enclosed r.expressions (· ∈ r.names.filter keep) := by
      intro e he hname other hother
      exact List.mem_filter.2 ⟨declared_of_build h he hother,
        hclosed e he (List.mem_filter.1 hname).2 other hother⟩
    obtain ⟨r', hr', hpart, hnames'⟩ := build_of_part h hparts
      (checkDocument_restricted keep hparts) (fun _ hrule => hrule) (.filter keep raws)
      (hnames ▸ hkept)
    rw [hnames] at hnames'
    refine ⟨r', hr', hnames', fun name hname ctx => ?_⟩
    have hagree : ∀ name ∈ r.names.filter keep,
        r'.expressions.at? name = r.expressions.at? name := hnames' ▸ hpart.at?_eq
    rw [hnames'] at hname
    rw [value_evaluate, value_evaluate]
    exact hsafe.run_agree (build_safe hr') hagree hkept (List.mem_filter.1 hname).1 hname ctx
  · intro b' other r' hruleset hr' hsame name hname hkeep ctx
    rw [value_evaluate, value_evaluate]
    exact hsafe.run_agree (build_safe hr')
      (fun name hkeep => at?_eq_of_builds hruleset h hr' (hsame name hkeep)) hclosed hname hkeep ctx

/-- The resolver of the document with the one leaf. -/
def fieldResolver : Resolver :=
  ⟨some "Fields", [("Positive", fieldRule "x")], [("main", .rule fieldLeaf)]⟩

/-- An expression that another denies does without that other; and in the document
that declares it alone, read with one level only, it means the same. -/
theorem reversed_restricted :
    (Builder.build ⟨fieldChecker "x"⟩ (.document reversedDocument)).value
        = .ok reversedResolver
      ∧ Enclosed reversedResolver.expressions (fun name => (name == "main") = true)
      ∧ (∃ r', (Builder.build ⟨fieldChecker "x"⟩
          (.document (reversedDocument.restricted (· == "main")))).value = .ok r'
        ∧ r'.names = ["main"]
        ∧ ∀ ctx, (r'.evaluate "main" ctx).value = (reversedResolver.evaluate "main" ctx).value)
      ∧ (Builder.build ⟨⟨(fieldChecker "x").ruleset, 1⟩⟩ (.document (fieldDocument "x"))).value
        = .ok fieldResolver
      ∧ ∀ ctx, (fieldResolver.evaluate "main" ctx).value
        = (reversedResolver.evaluate "main" ctx).value := by
  have hclosed : Enclosed reversedResolver.expressions (fun name => (name == "main") = true) := by
    intro e he hname other hother
    rcases List.mem_cons.1 he with rfl | he
    · exact absurd hname (by decide)
    · rw [List.mem_singleton.1 he] at hother
      obtain ⟨tag, hw⟩ := hother
      rcases Expr.within_iff.1 hw with heq | ⟨child, hchild, -⟩
      · cases heq
      · cases hchild
  have hfield : (Builder.build ⟨⟨(fieldChecker "x").ruleset, 1⟩⟩
      (.document (fieldDocument "x"))).value = .ok fieldResolver := by with_unfolding_all rfl
  obtain ⟨⟨r', hr', hnames, hsame⟩, hother⟩ := build_restricted build_reversed hclosed
  have hmain : r'.names = ["main"] := hnames.trans (by decide)
  refine ⟨build_reversed, hclosed, ⟨r', hr', hmain, hsame "main" ?_⟩, hfield, ?_⟩
  · rw [hmain]
    exact List.mem_singleton_self _
  · refine hother ⟨⟨_, 1⟩⟩ _ _ rfl hfield (fun name hname => ?_) "main" ?_ rfl
    · rw [beq_iff_eq.1 hname]
      rfl
    · exact List.mem_cons_of_mem _ (List.mem_singleton_self _)

end Verdict
