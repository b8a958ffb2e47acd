/-
Resolvers that a strict build gives. What the checker knows of a policy
carries over to the resolver: binding rewrites the leaves and nothing else,
so references, circles and heights are those of the policy, and each leaf
that passed the check is bound to its rule.

# Vocabulary

- `r.Safe limit`: nothing that an evaluation of `r` can meet is missing.
  Names are declared, leaves are bound, expansions are no higher than the
  limit, and a resolver with expressions has rules.

# Main statements

- `exists_resolverOf`: a checked policy has a resolver.
- `build_eq_ok_iff`: a strict build gives the resolver of the policy that
  the document is checked to be.
- `build_safe`: that resolver is safe.
- `parts_of_build`, `names_of_build`: it has the expressions of the document, in
  order, and every name in one of them is declared (`declared_of_build`).
-/
import Verdict.Policy.Build
import Verdict.Proofs.Expr.Binding
import Verdict.Proofs.Policy.Check

namespace Verdict

-- ============================================================== binding

variable {b : Builder} {p : Policy} {r : Resolver} {es : Expressions RuleRef}
  {bound : Expressions BoundRef}

/-- An instance is of the rule that the values were bound to. -/
theorem rule_of_bindFields {rule : Rule} {values : Table Value} {i : Instance}
    (h : rule.bindFields values = .ok i) : i.rule = rule := by
  unfold Rule.bindFields Rule.bindEntries at h
  split at h
  next => cases h
  next =>
    dsimp only at h
    split at h
    next => cases h
    next =>
      split at h
      next => cases h
      next =>
        split at h
        next =>
          injection h with h
          rw [← h]
        next => cases h

/-- The instance that a builder gives for a leaf. -/
def Builder.instanceOf (b : Builder) (ref : RuleRef) : Except Defect Instance :=
  match b.ruleset.rule? ref.rule with
  | some rule => rule.bindFields ref.values
  | none => .error (.ruleUnregistered ref.rule b.ruleset.name b.ruleset.ruleNames)

/-- A builder binds a leaf by setting that instance on it. -/
theorem bindRef_eq_setInstance (b : Builder) : b.bindRef = Expr.setInstance id b.instanceOf := by
  funext ref
  unfold Builder.bindRef Expr.setInstance Builder.instanceOf
  cases b.ruleset.rule? ref.rule <;> rfl

/-- A leaf that is bound keeps what it was in the document, and is bound to a
rule of the ruleset. -/
theorem bindRef_eq_ok {ref : RuleRef} {leaf : BoundRef} (h : b.bindRef ref = .ok leaf) :
    leaf.ref = ref ∧ ∃ i, leaf.bound = some i ∧ b.ruleset.rule? ref.rule = some i.rule := by
  rw [bindRef_eq_setInstance] at h
  obtain ⟨i, hi, rfl⟩ := Expr.setInstance_eq_ok.1 h
  unfold Builder.instanceOf at hi
  split at hi
  next rule hrule => exact ⟨rfl, i, rfl, by rw [rule_of_bindFields hi, hrule]⟩
  next => cases hi

theorem bindNamed_iff :
    b.bindNamed es = .ok bound ↔ List.Forall₂
      (fun e e' => e.1 = e'.1 ∧ e.2.bindLeaves b.bindRef = .ok e'.2) es bound := by
  induction es generalizing bound with
  | nil => simp [Builder.bindNamed, eq_comm]
  | cons e es ih =>
      rw [Builder.bindNamed, Outcome.bind_eq_ok, List.forall₂_cons_left_iff]
      constructor
      · intro h
        obtain ⟨e', he, h⟩ := h
        obtain ⟨rest, hrest, h⟩ := Outcome.bind_eq_ok.1 h
        injection h with h
        exact ⟨_, rest, ⟨rfl, he⟩, ih.1 hrest, h.symm⟩
      · intro h
        obtain ⟨⟨name, e'⟩, rest, ⟨rfl, he⟩, hrest, rfl⟩ := h
        exact ⟨e', he, Outcome.bind_eq_ok.2 ⟨rest, ih.2 hrest, rfl⟩⟩

theorem resolverOf_iff :
    b.resolverOf p = .ok r ↔ ∃ bound, b.bindNamed p.expressions = .ok bound
      ∧ r = ⟨some b.ruleset.name, b.rulesOf p.rules, bound⟩ := by
  unfold Builder.resolverOf
  rw [Outcome.bind_eq_ok]
  refine exists_congr fun bound => and_congr_right fun _ => ?_
  constructor
  · intro h
    injection h with h
    exact h.symm
  · intro h
    rw [h]
    rfl

/-- Nothing that an evaluation can meet is missing from a resolver. -/
structure Resolver.Safe (r : Resolver) (limit : Int) : Prop where
  noCircle : NoCircle r.expressions
  resolved : ∀ x e, r.expressions.at? x = some e → e.Resolved r.expressions.at?
  bound : ∀ x e, r.expressions.at? x = some e →
    ∀ leaf, Expr.Within (.rule leaf) e → ∃ i, leaf.bound = some i
  shallow : ∀ x e, r.expressions.at? x = some e →
    ∃ t, Expr.Expands r.expressions.at? e t ∧ (t.height : Int) ≤ limit
  live : r.expressions ≠ [] → r.rules ≠ []

/-- The expressions of a policy are those of its resolver with the leaves as
they are in the document, and each leaf is bound as it is there. -/
theorem bindNamed_eq_ok (h : b.bindNamed es = .ok bound) :
    es = bound.map (fun e => (e.1, e.2.map BoundRef.ref))
      ∧ ∀ e ∈ bound, ∀ leaf, Expr.Within (.rule leaf) e.2 → b.bindRef leaf.ref = .ok leaf := by
  have hall := (bindNamed_iff.1 h).imp fun e e' h => And.intro h.1
    (Expr.map_of_bindLeaves (f := BoundRef.ref) (fun _ _ h => (bindRef_eq_ok h).1) h.2)
  constructor
  · have hmap : es.map id = bound.map (fun e => (e.1, e.2.map BoundRef.ref)) :=
      Pairs.map_eq hall fun e e' h => Prod.ext h.1 h.2.1.symm
    rwa [List.map_id] at hmap
  · intro e he leaf hleaf
    obtain ⟨e', -, -, -, h⟩ := Pairs.of_mem_right hall he
    exact h leaf hleaf

/-- The resolver of a checked policy is safe. -/
theorem resolverOf_safe (hp : p.Checked b.checker) (h : b.resolverOf p = .ok r) :
    r.Safe b.checker.limit := by
  obtain ⟨bound, hbound, rfl⟩ := resolverOf_iff.1 h
  obtain ⟨hes, hleaves⟩ := bindNamed_eq_ok hbound
  have hlook : ∀ x, p.expressions.at? x = (bound.at? x).map (Expr.map BoundRef.ref) := by
    intro x
    rw [hes]
    exact Table.at?_map _ _ x
  have hgiven : ∀ x e, bound.at? x = some e →
      p.expressions.at? x = some (e.map BoundRef.ref) := by
    intro x e he
    rw [hlook, he]
    rfl
  -- binding leaves names alone, so a circle would be one of the policy
  have hcircle : NoCircle bound := by
    intro x hx
    refine hp.noCircle x (Relation.TransGen.mono (fun a y h => ?_) _ _ hx)
    obtain ⟨e, he, hy, hmem⟩ := h
    refine ⟨_, hgiven a e he, (Expr.refers_map _ _ _).2 hy, ?_⟩
    rw [hes, Table.names_map]
    exact hmem
  have hbind : ∀ x e, bound.at? x = some e →
      ∀ leaf, Expr.Within (.rule leaf) e → ∃ i, leaf.bound = some i := by
    intro x e he leaf hleaf
    obtain ⟨-, i, hi, -⟩ := bindRef_eq_ok (hleaves _ (Table.mem_of_at? he) leaf hleaf)
    exact ⟨i, hi⟩
  refine ⟨hcircle, fun x e he y hy => ?_, hbind, fun x e he => ?_, fun hne => ?_⟩
  · obtain ⟨d, hd⟩ := hp.resolved (hgiven x e he) y ((Expr.refers_map _ _ _).2 hy)
    rw [hlook] at hd
    obtain ⟨d, hd, -⟩ := Option.map_eq_some_iff.1 hd
    exact ⟨d, hd⟩
  · obtain ⟨t, ht⟩ := hcircle.expands he
    obtain ⟨t', ht', hle⟩ := hp.shallow x _ (hgiven x e he)
    have hmap := ht.map BoundRef.ref
    rw [← funext hlook] at hmap
    rw [← hmap.unique ht', Expr.height_map] at hle
    exact ⟨t, ht, hle⟩
  · have hsome : p.expressions ≠ [] := by
      rw [hes]
      exact fun h => hne (List.map_eq_nil_iff.1 h)
    obtain ⟨rule, hmem, r, hr⟩ := hp.exists_rule hsome
    refine Table.ofEntries_ne_nil (List.ne_nil_of_mem (a := (rule, r)) ?_)
    refine List.mem_filterMap.2 ⟨rule, hmem, ?_⟩
    unfold Builder.ruleset
    rw [hr]
    rfl

-- =============================================================== builds

variable {source : Source}

/-- A strict check is the check of the document of the source. -/
theorem value_checkStrict :
    (b.checkStrict source).value = (do
      let document ← source.value
      (b.checker.check document).mapError .ofDefect) := by
  unfold Builder.checkStrict
  rw [Journal.value_bind]
  cases source.value with
  | error e => rfl
  | ok document =>
      dsimp only
      cases hcheck : b.checker.check document with
      | error d =>
          show _ = (b.checker.check document).mapError SourceError.ofDefect
          rw [hcheck]
          rfl
      | ok p =>
          show _ = (b.checker.check document).mapError SourceError.ofDefect
          rw [hcheck]
          rfl

/-- A strict build makes the resolver of what a strict check gives. -/
theorem value_build :
    (b.build source).value = (do
      let p ← (b.checkStrict source).value
      (b.resolverOf p).mapError .ofDefect) := by
  unfold Builder.build
  rw [Journal.value_bind]
  cases (b.checkStrict source).value with
  | error e => rfl
  | ok p =>
      dsimp only
      cases hresolver : b.resolverOf p with
      | error d =>
          show _ = (b.resolverOf p).mapError SourceError.ofDefect
          rw [hresolver]
          rfl
      | ok r =>
          show _ = (b.resolverOf p).mapError SourceError.ofDefect
          rw [hresolver]
          rfl

/-- A strict build gives the resolver of the policy that the document of the
source is checked to be. -/
theorem build_eq_ok_iff :
    (b.build source).value = .ok r ↔ ∃ document p, source.value = .ok document
      ∧ b.checker.check document = .ok p ∧ b.resolverOf p = .ok r := by
  rw [value_build, value_checkStrict, Outcome.bind_eq_ok]
  constructor
  · intro h
    obtain ⟨p, hp, hr⟩ := h
    obtain ⟨document, hdocument, hp⟩ := Outcome.bind_eq_ok.1 hp
    exact ⟨document, p, hdocument, Outcome.mapError_eq_ok.1 hp, Outcome.mapError_eq_ok.1 hr⟩
  · intro h
    obtain ⟨document, p, hdocument, hp, hr⟩ := h
    exact ⟨p, Outcome.bind_eq_ok.2 ⟨document, hdocument, Outcome.mapError_eq_ok.2 hp⟩,
      Outcome.mapError_eq_ok.2 hr⟩

/-- What a strict build gives is safe. -/
theorem build_safe (h : (b.build source).value = .ok r) : r.Safe b.checker.limit := by
  obtain ⟨document, p, -, hp, hr⟩ := build_eq_ok_iff.1 h
  exact resolverOf_safe (check_checked hp) hr

/-- Every name in an expression of a resolver is declared. -/
theorem declared_of_build (h : (b.build source).value = .ok r) {e : String × Expr BoundRef}
    (he : e ∈ r.expressions) {name : String} (hname : e.2.Refers name) : name ∈ r.names := by
  obtain ⟨document, p, -, hp, hr⟩ := build_eq_ok_iff.1 h
  obtain ⟨bound, hbound, rfl⟩ := resolverOf_iff.1 hr
  have hes := (bindNamed_eq_ok hbound).1
  have hmem : (e.1, e.2.map BoundRef.ref) ∈ p.expressions := by
    rw [hes]
    exact List.mem_map_of_mem (f := fun e => (e.1, e.2.map BoundRef.ref)) he
  obtain ⟨tag, hw⟩ := (Expr.refers_map BoundRef.ref _ _).2 hname
  have hdeclared : name ∈ p.expressions.names := (check_checked hp).sound _ hmem _ hw
  rw [hes, Table.names_map] at hdeclared
  exact hdeclared

/-- The names of a resolver are those that the check finds in the document. -/
theorem parts_of_build {document : Value} (hsource : source.value = .ok document)
    (h : (b.build source).value = .ok r) :
    ∃ rules raws, b.checker.checkDocument document = .ok (rules, raws)
      ∧ r.names = Table.names raws := by
  obtain ⟨document', p, hdocument, hp, hr⟩ := build_eq_ok_iff.1 h
  obtain rfl : document = document' := Except.ok.inj (hsource.symm.trans hdocument)
  obtain ⟨-, raws, hparts, hes, -⟩ := check_eq_ok_iff.1 hp
  obtain ⟨bound, hbound, rfl⟩ := resolverOf_iff.1 hr
  -- entries are checked and bound one by one, each under its own name
  have hread : Table.names raws = p.expressions.names :=
    Pairs.map_eq (checkNamed_iff.1 hes) fun _ _ h => h.1
  have hbind : p.expressions.names = Table.names bound :=
    Pairs.map_eq (bindNamed_iff.1 hbound) fun _ _ h => h.1
  exact ⟨p.rules, raws, hparts, (hread.trans hbind).symm⟩

/-- The names of a resolver are the keys of the expressions of the document, in
the same order. -/
theorem names_of_build {document : Value} (hsource : source.value = .ok document)
    (h : (b.build source).value = .ok r) :
    ∃ expressions entries, document.get? "expressions" = some expressions
      ∧ expressions.unrolled = .map entries ∧ entries.map (·.1) = r.names.map .str := by
  obtain ⟨rules, raws, hparts, hnames⟩ := parts_of_build hsource h
  rw [hnames]
  exact keys_of_checkDocument hparts

end Verdict
