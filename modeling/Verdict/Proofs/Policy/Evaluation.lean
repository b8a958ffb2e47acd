/-
Evaluating what a strict build gives. Nothing is missing from a safe
resolver, so its evaluations end as the rules of evaluation say: with a
truth value, or with the fault of one of the rules, no deeper than the limit,
and just as the substituted expression would.

# Main statements

- `Safe.evaluates`: the expression of a declared name, its expansion and the
  evaluation of it by name all end alike.
- `build_evaluates`: after a strict build no evaluation fails for want of a
  name, of a bound leaf or of levels.
- `build_isInert_iff`: a strict build denies everything only where nothing is
  declared.
- `build_transparent`: names can be replaced by what they stand for.
-/
import Verdict.Proofs.Expr.Meaning
import Verdict.Proofs.Policy.Resolver
import Verdict.Proofs.Policy.WellFormed

namespace Verdict

open Verdict.Expr (Evaluates Expands Within)

variable {b : Builder} {source : Source} {r : Resolver} {limit : Int}

namespace Resolver

/-- A declared name is found. -/
theorem find_of_at? {x : String} {e : Expr BoundRef} (h : r.expressions.at? x = some e) :
    r.find x = .ok e := by
  unfold find
  rw [h]

theorem at?_of_find {x : String} {e : Expr BoundRef} (h : r.find x = .ok e) :
    r.expressions.at? x = some e := by
  unfold find at h
  split at h
  next d hd =>
    injection h with h
    rw [hd, h]
  next => cases h

namespace Safe

/-- The expansions of a safe resolver name nothing. -/
theorem closed (h : r.Safe limit) {x : String} {e t : Expr BoundRef}
    (he : r.expressions.at? x = some e) (ht : Expands r.expressions.at? e t) : t.Closed :=
  ht.closed (h.resolved x e he) fun name d hd => h.resolved name d hd

/-- The leaves of the expansions of a safe resolver are bound. -/
theorem expansion_bound (h : r.Safe limit) {x : String} {e t : Expr BoundRef}
    (he : r.expressions.at? x = some e) (ht : Expands r.expressions.at? e t)
    {leaf : BoundRef} (hleaf : Within (.rule leaf) t) : ∃ i, leaf.bound = some i := by
  rcases ht.origin hleaf trivial with hw | ⟨name, d, hd, hw⟩
  · exact h.bound x e he leaf hw
  · exact h.bound name d hd leaf hw

/-- A safe resolver denies everything only where it has nothing to answer. -/
theorem isInert_iff (h : r.Safe limit) : r.isInert = true ↔ r.names = [] := by
  unfold Resolver.isInert Resolver.names Table.names
  rw [Bool.or_eq_true, List.isEmpty_iff, List.isEmpty_iff, List.map_eq_nil_iff]
  exact or_iff_right_of_imp fun hrules => by_contra fun hne => h.live hne hrules

/-- A safe resolver with a declared name does not deny everything. -/
theorem run_eq (h : r.Safe limit) {x : String} {e : Expr BoundRef}
    (he : r.expressions.at? x = some e) (ctx : Context) :
    r.run x ctx = e.evaluate r.find (e.size + r.nodeCount) ⟨ctx, []⟩ := by
  have hne : r.names ≠ [] := List.ne_nil_of_mem (Table.mem_names_of_at? he)
  have hlive : r.isInert = false := Bool.eq_false_iff.2 (h.isInert_iff.not.2 hne)
  unfold Resolver.run
  rw [hlive, find_of_at? he]
  rfl

/-- The expression of a declared name, its expansion and the run by its name
end alike, and no deeper than the limit. -/
theorem evaluates (h : r.Safe limit) {x : String} {e t : Expr BoundRef}
    (he : r.expressions.at? x = some e) (ht : Expands r.expressions.at? e t)
    (ctx : Context) :
    ∃ o final, ∃ d : Nat, (d : Int) ≤ limit ∧ Evaluates r.find e ⟨ctx, []⟩ o final d
      ∧ (∀ scope, Evaluates scope t ⟨ctx, []⟩ o final d) ∧ r.run x ctx = (o, final) := by
  obtain ⟨o, final, d, hd, heval, hexp⟩ :=
    ht.evaluates (fun name d hd => find_of_at? hd) (h.closed he ht) ⟨ctx, []⟩
  refine ⟨o, final, d, ?_, heval, hexp, ?_⟩
  · obtain ⟨t', ht', hle⟩ := h.shallow x e he
    rw [← ht.unique ht'] at hle
    omega
  · rw [h.run_eq he]
    refine Expr.evaluate_of_evaluates heval _ ?_
    have hnodes : t.height ≤ r.nodeCount := h.noCircle.height_le he ht
    omega

end Safe

end Resolver

/-- The value of an evaluation is that of the run; the rest is logged. -/
theorem value_evaluate (name : String) (ctx : Context) :
    (r.evaluate name ctx).value = r.run name ctx := by
  unfold Resolver.evaluate
  cases r.isInert <;> rfl

-- ================================================================ safety

/-- After a strict build every name that occurs is declared and every leaf is
bound, and evaluating a declared name ends, with no more nodes inside one
another than the limit allows: with a truth value, or with the fault with
which one of the rules has ended. -/
theorem build_evaluates (h : (b.build source).value = .ok r) :
    (∀ x e, r.find x = .ok e → (∀ name, e.Refers name → name ∈ r.names)
      ∧ ∀ leaf, Within (.rule leaf) e → ∃ i, leaf.bound = some i)
    ∧ ∀ name ∈ r.names, ∀ ctx, ∃ e out final, ∃ d : Nat, r.find name = .ok e
      ∧ Evaluates r.find e ⟨ctx, []⟩ out final d ∧ (d : Int) ≤ b.checker.limit
      ∧ e.evaluate r.find b.checker.limit.toNat ⟨ctx, []⟩ = (out, final)
      ∧ (r.evaluate name ctx).value = (out, final)
      ∧ ((∃ v, out = .ok v) ∨ ∃ x d leaf i before f, r.find x = .ok d
        ∧ Within (.rule leaf) d ∧ leaf.bound = some i
        ∧ i.evaluate before = (.error f, final.context) ∧ out = .error (.fault f)) := by
  have hsafe := build_safe h
  constructor
  · intro x e he
    have he := Resolver.at?_of_find he
    refine ⟨fun name hname => ?_, hsafe.bound x e he⟩
    obtain ⟨d, hd⟩ := hsafe.resolved x e he name hname
    exact Table.mem_names_of_at? hd
  · intro name hname ctx
    obtain ⟨e, he⟩ := Table.exists_at? hname
    obtain ⟨t, ht, -⟩ := hsafe.shallow name e he
    obtain ⟨out, final, d, hd, heval, hexp, hrun⟩ := hsafe.evaluates he ht ctx
    refine ⟨e, out, final, d, Resolver.find_of_at? he, heval, hd,
      Expr.evaluate_of_evaluates heval _ (by omega), ?_, ?_⟩
    · rw [value_evaluate, hrun]
    · -- the expansion says which rules an outcome can come from
      have hanswers := (hexp r.find).answers (hsafe.closed he ht)
        fun leaf hleaf => hsafe.expansion_bound he ht hleaf
      rcases hanswers with hv | ⟨leaf, i, before, f, hleaf, hi, hf, hout⟩
      · exact Or.inl hv
      · refine Or.inr ?_
        rcases ht.origin hleaf trivial with hw | ⟨x, d, hd, hw⟩
        · exact ⟨name, e, leaf, i, before, f, Resolver.find_of_at? he, hw, hi, hf, hout⟩
        · exact ⟨x, d, leaf, i, before, f, Resolver.find_of_at? hd, hw, hi, hf, hout⟩

-- ========================================================= a reference

/-- A leaf of the rule with one field. -/
def fieldRef : RuleRef := ⟨"Positive", [⟨"x", "integer", .int 1⟩]⟩

/-- A document in which one expression denies what another says. -/
def reversedDocument : Value :=
  .object [("ruleset", .str "Fields"), ("rules", .texts ["Positive"]),
    ("expressions", .object [("deny", .object [("Not", .object [("expr", .str "main")])]),
      ("main", fieldRef.toValue)])]

/-- That leaf, bound. -/
def fieldLeaf : BoundRef := ⟨fieldRef, some ⟨fieldRule "x", [("x", .integer 1)]⟩⟩

/-- The resolver of that document. -/
def reversedResolver : Resolver :=
  ⟨some "Fields", [("Positive", fieldRule "x")],
    [("deny", .not (.named "expr" "main")), ("main", .rule fieldLeaf)]⟩

theorem build_reversed :
    (Builder.build ⟨fieldChecker "x"⟩ (.document reversedDocument)).value
      = .ok reversedResolver := by with_unfolding_all rfl

/-- Both of its expressions answer to every context, no deeper than the limit. -/
theorem reversed_evaluates :
    (Builder.build ⟨fieldChecker "x"⟩ (.document reversedDocument)).value
        = .ok reversedResolver
      ∧ ∀ name ∈ ["deny", "main"], ∀ ctx, ∃ e out final, ∃ d : Nat,
        Evaluates reversedResolver.find e ⟨ctx, []⟩ out final d ∧ (d : Int) ≤ 64
          ∧ (reversedResolver.evaluate name ctx).value = (out, final) := by
  refine ⟨build_reversed, fun name hname ctx => ?_⟩
  obtain ⟨e, out, final, d, -, heval, hd, -, hvalue, -⟩ :=
    (build_evaluates build_reversed).2 name hname ctx
  exact ⟨e, out, final, d, heval, hd, hvalue⟩

-- ================================================================ denial

/-- Of what a strict build gives, only a document without expressions is denied
everything: with an expression there is a rule. -/
theorem build_isInert_iff {document : Value} (hsource : source.value = .ok document)
    (h : (b.build source).value = .ok r) :
    ∃ expressions entries, document.get? "expressions" = some expressions
      ∧ expressions.unrolled = .map entries ∧ (r.isInert = true ↔ entries = [])
      ∧ (entries ≠ [] → r.rules ≠ []) := by
  obtain ⟨expressions, entries, hexpressions, hmap, hkeys⟩ := names_of_build hsource h
  have hsafe := build_safe h
  have hnames : r.names = [] ↔ entries = [] := by
    rw [← List.map_eq_nil_iff (f := Value.str), ← hkeys, List.map_eq_nil_iff]
  have hnil : r.names = [] ↔ r.expressions = [] := List.map_eq_nil_iff
  exact ⟨expressions, entries, hexpressions, hmap, hsafe.isInert_iff.trans hnames,
    fun hne => hsafe.live ((hnil.symm.trans hnames).not.2 hne)⟩

/-- A document with a rule of the ruleset and no expression. -/
def idleDocument : Value :=
  .object [("ruleset", .str "Fields"), ("rules", .texts ["Positive"]), ("expressions", .map [])]

def idleResolver : Resolver := ⟨some "Fields", [("Positive", fieldRule "x")], []⟩

/-- Without expressions everything is denied, and with expressions it is not. -/
theorem reversed_live :
    (Builder.build ⟨fieldChecker "x"⟩ (.document idleDocument)).value = .ok idleResolver
      ∧ idleResolver.isInert = true
      ∧ (Builder.build ⟨fieldChecker "x"⟩ (.document reversedDocument)).value
        = .ok reversedResolver
      ∧ reversedResolver.isInert = false ∧ reversedResolver.rules ≠ [] := by
  have hbuild : (Builder.build ⟨fieldChecker "x"⟩ (.document idleDocument)).value
      = .ok idleResolver := by with_unfolding_all rfl
  obtain ⟨_, _, hidle, hmap, hinert, -⟩ := build_isInert_iff rfl hbuild
  cases hidle
  cases hmap
  obtain ⟨_, _, hreversed, hmap, hlive, hrules⟩ := build_isInert_iff rfl build_reversed
  cases hreversed
  cases hmap
  refine ⟨hbuild, hinert.2 rfl, build_reversed, Bool.eq_false_iff.2 fun h => ?_,
    hrules (List.cons_ne_nil _ _)⟩
  exact List.cons_ne_nil _ _ (hlive.1 h)

-- ========================================================== transparency

/-- After a strict build evaluating a declared name is evaluating what is
left when every name is replaced, all the way down, by what it stands for. -/
theorem build_transparent (h : (b.build source).value = .ok r) {name : String}
    (hname : name ∈ r.names) :
    ∃ e t, r.expressions.at? name = some e ∧ Expands r.expressions.at? e t
      ∧ (∀ t', Expands r.expressions.at? e t' → t' = t) ∧ t.Closed
      ∧ ∀ ctx out final scope, (r.evaluate name ctx).value = (out, final) ↔
        ∃ d, Evaluates scope t ⟨ctx, []⟩ out final d := by
  have hsafe := build_safe h
  obtain ⟨e, he⟩ := Table.exists_at? hname
  obtain ⟨t, ht, -⟩ := hsafe.shallow name e he
  refine ⟨e, t, he, ht, fun t' ht' => ht'.unique ht, hsafe.closed he ht, ?_⟩
  intro ctx out final scope
  obtain ⟨o, s', d, -, -, hexp, hrun⟩ := hsafe.evaluates he ht ctx
  rw [value_evaluate, hrun]
  constructor
  · intro heq
    injection heq with ho hs
    subst ho hs
    exact ⟨d, hexp scope⟩
  · intro hev
    obtain ⟨d', hev⟩ := hev
    obtain ⟨ho, hs⟩ := (hexp scope).unique hev
    rw [ho, hs]

/-- The expression that denies the other is the denial of what that one says. -/
theorem reversed_transparent :
    (Builder.build ⟨fieldChecker "x"⟩ (.document reversedDocument)).value
        = .ok reversedResolver
      ∧ "deny" ∈ reversedResolver.names
      ∧ ∀ ctx out final scope, (reversedResolver.evaluate "deny" ctx).value = (out, final) ↔
        ∃ d, Evaluates scope (.not (.inline "expr" (.rule fieldLeaf))) ⟨ctx, []⟩ out final d := by
  have hname : "deny" ∈ reversedResolver.names := List.mem_cons_self ..
  refine ⟨build_reversed, hname, ?_⟩
  obtain ⟨e, t, he, -, hunique, -, h⟩ := build_transparent build_reversed hname
  have hdeny : reversedResolver.expressions.at? "deny" = some (.not (.named "expr" "main")) :=
    rfl
  rw [hdeny] at he
  injection he with he
  subst he
  have ht : Expands reversedResolver.expressions.at? (.not (.named "expr" "main"))
      (.not (.inline "expr" (.rule fieldLeaf))) := .not (.named rfl (.rule fieldLeaf))
  rw [hunique _ ht]
  exact h

end Verdict
