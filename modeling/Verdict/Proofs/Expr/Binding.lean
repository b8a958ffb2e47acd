/-
Binding as a rewriting of the leaves. Binding goes through an expression as a walk
does: its leaves are bound in the order in which the walk lists them, and what the
first of them fails with is the outcome. Where none fails, the expression that it
gives has the bound leaves in the places of the others, and nothing else is new.

# Vocabulary

- `setInstance read binder`: what sets the instance that `binder` gives on a leaf
  whose part of the document is told by `read`.

# Main statements

- `leaves_bindLeaves`: binding an expression is binding the list of its leaves.
- `map_bindLeaves`: but for the leaves the expression is the same.
- `bindLeaves_sets`: what binding gives, and what it fails with.
-/
import Verdict.Expr.Bind
import Verdict.Proofs.Expr.Traversal
import Verdict.Proofs.Outcome
import Verdict.Proofs.Pairs
import Verdict.Sample.Constant

namespace Verdict.Expr

variable {ρ σ τ ε : Type} {binder : ρ → Except ε σ} {e : Expr ρ} {e' : Expr σ}

-- =============================================================== leaves

section leaves

variable {c : Connective} {es : List (Expr ρ)} {leaf : ρ} {tag name : String}

/-- What is read off the nodes of a walk is read off the expression, and then off
its children. -/
theorem filterMap_walk {α : Type} (f : Expr ρ → Option α) (e : Expr ρ) :
    e.walk.filterMap f
      = (f e).toList ++ e.children.flatMap fun child => child.walk.filterMap f := by
  rw [walk_eq_cons, List.filterMap_cons, List.filterMap_flatMap]
  cases f e <;> rfl

theorem leaves_join : (Expr.join c es).leaves = es.flatMap leaves := filterMap_walk ..

theorem leaves_not : (Expr.not e).leaves = e.leaves := by
  unfold leaves
  rw [filterMap_walk, children, List.flatMap_singleton]
  rfl

theorem leaves_rule : (Expr.rule leaf).leaves = [leaf] := filterMap_walk ..

theorem leaves_named : (Expr.named tag name : Expr ρ).leaves = [] := filterMap_walk ..

theorem leaves_inline : (Expr.inline tag e).leaves = e.leaves := by
  unfold leaves
  rw [filterMap_walk, children, List.flatMap_singleton]
  rfl

theorem mem_leaves : leaf ∈ e.leaves ↔ Within (.rule leaf) e := by
  unfold leaves
  rw [List.mem_filterMap, ← mem_walk]
  constructor
  · rintro ⟨d, hd, hleaf⟩
    cases d with
    | rule other =>
        injection hleaf with hleaf
        exact hleaf ▸ hd
    | _ => cases hleaf
  · exact fun h => ⟨_, h, rfl⟩

end leaves

-- =============================================================== binding

theorem bindAll_iff {es : List (Expr ρ)} {es' : List (Expr σ)} :
    bindAll binder es = .ok es' ↔
      List.Forall₂ (fun e e' => bindLeaves binder e = .ok e') es es' := by
  induction es generalizing es' with
  | nil => simp [bindAll, eq_comm]
  | cons e es ih =>
      rw [bindAll, Outcome.bind_eq_ok, List.forall₂_cons_left_iff]
      constructor
      · intro h
        obtain ⟨e', he, h⟩ := h
        obtain ⟨rest, hrest, h⟩ := Outcome.bind_eq_ok.1 h
        injection h with h
        exact ⟨e', rest, he, ih.1 hrest, h.symm⟩
      · intro h
        obtain ⟨e', rest, he, hrest, rfl⟩ := h
        exact ⟨e', he, Outcome.bind_eq_ok.2 ⟨rest, ih.2 hrest, rfl⟩⟩

/-- Where binding each of some expressions is binding its leaves, binding all of them
is binding the leaves of all. -/
theorem leaves_bindAll {es : List (Expr ρ)}
    (h : ∀ e ∈ es, (bindLeaves binder e).map leaves = e.leaves.mapM binder) :
    (bindAll binder es).map (fun es' => es'.flatMap leaves) = (es.flatMap leaves).mapM binder := by
  induction es with
  | nil => rfl
  | cons e es ih =>
      rw [List.forall_mem_cons] at h
      rw [bindAll, List.flatMap_cons, List.mapM_append, ← h.1, ← ih h.2]
      cases bindLeaves binder e with
      | error err => rfl
      | ok e' =>
          show Except.map _ (bindAll binder es >>= _) = Except.map _ _ >>= _
          cases bindAll binder es with
          | error err => rfl
          | ok es' => rfl

/-- Binding an expression is binding the list of its leaves, in the order of a walk. -/
theorem leaves_bindLeaves (binder : ρ → Except ε σ) (e : Expr ρ) :
    (bindLeaves binder e).map leaves = e.leaves.mapM binder := by
  induction e using induct with
  | join c es ih =>
      rw [leaves_join, ← leaves_bindAll ih, bindLeaves]
      cases bindAll binder es with
      | error err => rfl
      | ok es' => exact congrArg Except.ok leaves_join
  | not e ih =>
      rw [leaves_not, ← ih, bindLeaves]
      cases bindLeaves binder e with
      | error err => rfl
      | ok e' => exact congrArg Except.ok leaves_not
  | rule r =>
      rw [leaves_rule, bindLeaves, List.mapM_cons]
      cases binder r with
      | error err => rfl
      | ok s => exact congrArg Except.ok leaves_rule
  | named tag name =>
      rw [leaves_named]
      exact congrArg Except.ok leaves_named
  | inline tag e ih =>
      rw [leaves_inline, ← ih, bindLeaves]
      cases bindLeaves binder e with
      | error err => rfl
      | ok e' => exact congrArg Except.ok leaves_inline

/-- The leaves of what binding gives are what the binder made of the others. -/
theorem forall₂_leaves (h : bindLeaves binder e = .ok e') :
    List.Forall₂ (fun r s => binder r = .ok s) e.leaves e'.leaves := by
  rw [← Outcome.mapM_eq_ok, ← leaves_bindLeaves, h]
  rfl

/-- Where leaves tell of what they were bound from, rewriting them to that gives the
expression that was bound. -/
theorem map_bindLeaves {f : ρ → τ} {g : σ → τ} (hfg : ∀ r s, binder r = .ok s → g s = f r)
    (h : bindLeaves binder e = .ok e') : e'.map g = e.map f := by
  induction e using induct generalizing e' with
  | join c es ih =>
      obtain ⟨es', hes, rfl⟩ := Outcome.map_eq_ok.1 h
      have hall := Pairs.imp_of_mem (bindAll_iff.1 hes) fun e he e' _ h => ih e he h
      rw [map, map, mapAll_eq, mapAll_eq, Pairs.map_eq hall fun e e' h => h.symm]
  | not e ih =>
      obtain ⟨e', he, rfl⟩ := Outcome.map_eq_ok.1 h
      rw [map, map, ih he]
  | rule r =>
      obtain ⟨s, hs, rfl⟩ := Outcome.map_eq_ok.1 h
      rw [map, map, hfg r s hs]
  | named tag name =>
      injection h with h
      subst h
      rfl
  | inline tag e ih =>
      obtain ⟨e', he, rfl⟩ := Outcome.map_eq_ok.1 h
      rw [map, map, ih he]

/-- Leaves that tell what they were bound from give the expression back, and
each of them is bound as the binder binds. -/
theorem map_of_bindLeaves {f : σ → ρ} (hf : ∀ r s, binder r = .ok s → f s = r)
    (h : bindLeaves binder e = .ok e') :
    e'.map f = e ∧ ∀ s, Within (.rule s) e' → binder (f s) = .ok s := by
  constructor
  · rw [map_bindLeaves (f := id) hf h, map_id]
  · intro s hs
    obtain ⟨r, -, hr⟩ := Pairs.of_mem_right (forall₂_leaves h) (mem_leaves.2 hs)
    rw [hf r s hr, hr]

-- ======================================================= rewritten walks

theorem walk_map (f : ρ → τ) (e : Expr ρ) : (e.map f).walk = e.walk.map (map f) := by
  induction e using byChildren with
  | node e ih =>
      have hchildren : (e.children.map (map f)).flatMap walk
          = (e.children.flatMap walk).map (map f) := by
        rw [List.flatMap_map, List.map_flatMap]
        exact List.flatMap_congr ih
      rw [walk_eq_cons, walk_eq_cons e, children_map, hchildren, List.map_cons]

theorem reference?_map (f : ρ → τ) (e : Expr ρ) : (e.map f).reference? = e.reference? := by
  cases e <;> rfl

/-- It lists references by the same names. -/
theorem names_map (f : ρ → τ) (e : Expr ρ) :
    (e.map f).walk.filterMap reference? = e.walk.filterMap reference? := by
  rw [walk_map, List.filterMap_map]
  exact List.filterMap_congr fun d _ => reference?_map f d

-- ============================================================= instances

/-- Set on a leaf the instance that a binder gives for it, and keep the part of the
document. -/
def setInstance (read : ρ → RuleRef) (binder : ρ → Except ε Instance) (r : ρ) :
    Except ε BoundRef :=
  (binder r).map fun i => ⟨read r, some i⟩

section instances

variable {read : ρ → RuleRef} {binder : ρ → Except ε Instance} {r : ρ} {leaf : BoundRef}

theorem setInstance_eq_ok :
    setInstance read binder r = .ok leaf ↔ ∃ i, binder r = .ok i ∧ leaf = ⟨read r, some i⟩ := by
  unfold setInstance
  rw [Outcome.map_eq_ok]
  exact exists_congr fun i => and_congr_right fun _ => eq_comm

end instances

end Verdict.Expr
