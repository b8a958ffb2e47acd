/-
How deep expressions nest. The depths that are computed along an order of the
names are exact: each is the length of the longest way down the expression
with every reference followed. So the check of the depths fails exactly where
some expression nests deeper than the limit, and what it then says is the
case.

# Vocabulary

- `WayDown e way`: the nodes of `way` lead from `e` down to one that nothing
  stands under.
- `t.LongestWay n`: a longest way down `t` has `n` nodes.
- `DepthOf es x n`: a longest way down has `n` nodes, once every reference in
  the expression of `x` is followed.
- `c.RefusesDeep es outcome`: the outcome is a failure exactly where some depth
  is beyond the limit, and names such a depth.

# Main statements

- `depths_exact`: along every order of the names each gets its depth, and the
  check of the depths refuses what is too deep.
-/
import Verdict.Proofs.Policy.Check
import Verdict.Proofs.Reference.Circle

namespace Verdict

variable {ρ : Type}

namespace Expr

-- ========================================================== ways down

/-- The nodes on a way from an expression down to one that nothing stands
under. -/
inductive WayDown : Expr ρ → List (Expr ρ) → Prop where
  | last {e : Expr ρ} (h : e.children = []) : WayDown e [e]
  | next {e child : Expr ρ} {way : List (Expr ρ)} (hchild : child ∈ e.children)
      (h : WayDown child way) : WayDown e (e :: way)

/-- The number of nodes on the longest way down an expression. -/
structure LongestWay (e : Expr ρ) (n : Nat) : Prop where
  exists_way : ∃ way, WayDown e way ∧ way.length = n
  length_le : ∀ way, WayDown e way → way.length ≤ n

theorem LongestWay.unique {e : Expr ρ} {n m : Nat} (hn : e.LongestWay n)
    (hm : e.LongestWay m) : n = m := by
  obtain ⟨way, hway, rfl⟩ := hn.exists_way
  obtain ⟨way', hway', rfl⟩ := hm.exists_way
  exact Nat.le_antisymm (hm.length_le way hway) (hn.length_le way' hway')

theorem WayDown.length_le {e : Expr ρ} {way : List (Expr ρ)} (h : WayDown e way) :
    way.length ≤ e.height := by
  induction h with
  | last => exact height_pos _
  | @next e child way hchild _ ih =>
      have hle := heights_le_iff.1 (Nat.le_refl (heights e.children)) child hchild
      rw [List.length_cons, height_eq]
      omega

/-- Of several expressions one is as high as any. -/
theorem exists_height_eq {es : List (Expr ρ)} (h : es ≠ []) :
    ∃ e ∈ es, e.height = heights es := by
  induction es with
  | nil => exact absurd rfl h
  | cons e es ih =>
      rw [heights]
      by_cases hle : heights es ≤ e.height
      · exact ⟨e, List.mem_cons_self .., (Nat.max_eq_left hle).symm⟩
      · have hne : es ≠ [] := by
          intro hnil
          rw [hnil, heights] at hle
          exact hle (Nat.zero_le _)
        obtain ⟨d, hd, hheight⟩ := ih hne
        refine ⟨d, List.mem_cons_of_mem _ hd, ?_⟩
        rw [hheight]
        omega

/-- The height of an expression is the length of its longest way down. -/
theorem longestWay_height (e : Expr ρ) : e.LongestWay e.height where
  length_le := fun _ h => h.length_le
  exists_way := by
    induction e using byChildren with
    | node e ih =>
        rw [height_eq]
        by_cases hnone : e.children = []
        · refine ⟨[e], .last hnone, ?_⟩
          rw [hnone]
          rfl
        · obtain ⟨child, hchild, hheight⟩ := exists_height_eq hnone
          obtain ⟨way, hway, hlength⟩ := ih child hchild
          refine ⟨e :: way, .next hchild hway, ?_⟩
          rw [List.length_cons, hlength, hheight]
          omega

end Expr

-- ============================================================== depths

/-- The number of nodes on the longest way down the expression of a name, with
every reference in it followed. -/
def DepthOf (es : Expressions ρ) (x : String) (n : Nat) : Prop :=
  ∃ e t, es.at? x = some e ∧ Expr.Expands es.at? e t ∧ t.LongestWay n

variable {es : Expressions ρ}

theorem DepthOf.unique {x : String} {n m : Nat} (hn : DepthOf es x n)
    (hm : DepthOf es x m) : n = m := by
  obtain ⟨e, t, he, ht, hn⟩ := hn
  obtain ⟨e', t', he', ht', hm⟩ := hm
  rw [he] at he'
  injection he' with he'
  subst he'
  rw [ht.unique ht'] at hn
  exact hn.unique hm

theorem DepthOf.mem_names {x : String} {n : Nat} (h : DepthOf es x n) : x ∈ es.names := by
  obtain ⟨_, _, he, -⟩ := h
  exact Table.mem_names_of_at? he

/-- What is measured is the depth. -/
theorem Measured.depthOf {order : List String} {depths : Table Nat}
    (h : Measured es order depths) {x : String} (hx : x ∈ order) :
    ∃ n, depths.at? x = some n ∧ DepthOf es x n := by
  obtain ⟨e, t, he, ht, hdepth⟩ := h.height x hx
  exact ⟨t.height, hdepth, e, t, he, ht, t.longestWay_height⟩

/-- Along an order of the names all of them are measured. -/
theorem DependencyOrder.measured {order : List String} (h : DependencyOrder es order) :
    ∃ depths, depthsAlong es order [] = .ok depths ∧ Measured es order depths := by
  have hnone : Measured es [] [] :=
    ⟨List.nodup_nil, fun _ => Iff.rfl, fun _ hx => absurd hx List.not_mem_nil⟩
  exact depthsAlong_measured order [] [] (dependencyOrder_iff.1 h).1 hnone

-- =========================================================== the limit

/-- The outcome of a check is a failure exactly where some name is deeper than
the limit, and then says so of a name that is, with its depth. -/
structure Checker.RefusesDeep (c : Checker) (es : Expressions ρ)
    (outcome : Except Defect Unit) : Prop where
  fails_iff : (∃ d, outcome = .error d) ↔ ∃ x n, DepthOf es x n ∧ c.limit < n
  truthful : ∀ d, outcome = .error d → d.name = "NestingDepthError"
    ∧ ∃ x n, DepthOf es x n ∧ c.limit < n
      ∧ d.message = s!"Expression {x} nests {n} levels deep through expression "
        ++ s!"references, exceeding the maximum depth of {c.limit}"

/-- Checking what is measured refuses what is too deep. -/
theorem Measured.refusesDeep {order : List String} {depths : Table Nat} (c : Checker)
    (h : Measured es order depths) (hall : ∀ x ∈ es.names, x ∈ order) :
    c.RefusesDeep es (c.checkDepths depths) := by
  have hreal : ∀ d, c.checkDepths depths = .error d →
      ∃ x n, DepthOf es x n ∧ c.limit < n ∧ d = .referencesTooDeep x n c.limit := by
    intro d hd
    obtain ⟨⟨x, n⟩, hmem, hdeep, rfl⟩ := checkDepths_eq_error hd
    obtain ⟨m, hat, hdepth⟩ := h.depthOf ((h.declared x).1 (List.mem_map_of_mem hmem))
    rw [Table.at?_of_mem h.nodup hmem] at hat
    injection hat with hat
    subst hat
    exact ⟨x, n, hdepth, hdeep, rfl⟩
  refine ⟨⟨fun hd => ?_, fun hx => ?_⟩, fun d hd => ?_⟩
  · obtain ⟨d, hd⟩ := hd
    obtain ⟨x, n, hdepth, hdeep, -⟩ := hreal d hd
    exact ⟨x, n, hdepth, hdeep⟩
  · obtain ⟨x, n, hdepth, hdeep⟩ := hx
    cases hout : c.checkDepths depths with
    | error d => exact ⟨d, rfl⟩
    | ok _ =>
        obtain ⟨m, hat, hdepth'⟩ := h.depthOf (hall x hdepth.mem_names)
        have hle := checkDepths_iff.1 hout _ (Table.mem_of_at? hat)
        rw [hdepth'.unique hdepth] at hle
        exact absurd hdeep (Int.not_lt.2 hle)
  · obtain ⟨x, n, hdepth, hdeep, rfl⟩ := hreal d hd
    exact ⟨rfl, x, n, hdepth, hdeep, rfl⟩

/-- The check of references that lead nowhere back is that of the depths. -/
theorem checkReferences_refusesDeep (c : Checker) {es : Expressions RuleRef}
    (h : NoCircle es) : c.RefusesDeep es (c.checkReferences es) := by
  obtain ⟨order, depths, heq, hmeas, hall⟩ := h.checkReferences_eq c
  rw [heq]
  exact hmeas.refusesDeep c hall

/-- Along every order of the declared names in which what is referred to comes
first each gets the length of the longest way down its expression with every
reference followed, and the check of these depths refuses what nests deeper than
the limit. So does the check of the references, which takes the order that the
search finds. -/
theorem depths_exact :
    (∀ (es : Expressions ρ) (order : List String), DependencyOrder es order →
      ∃ depths, depthsAlong es order [] = .ok depths
        ∧ (∀ x, x ∈ depths.names ↔ x ∈ es.names)
        ∧ (∀ x ∈ es.names, ∃ n, depths.at? x = some n ∧ DepthOf es x n)
        ∧ ∀ c : Checker, c.RefusesDeep es (c.checkDepths depths))
      ∧ ∀ (c : Checker) (es : Expressions RuleRef), NoCircle es →
        c.RefusesDeep es (c.checkReferences es) := by
  refine ⟨fun es order h => ?_, fun c es h => checkReferences_refusesDeep c h⟩
  obtain ⟨depths, hdepths, hmeas⟩ := h.measured
  have hall : ∀ x ∈ es.names, x ∈ order := fun x hx => (h.mem_iff x).2 hx
  refine ⟨depths, hdepths, fun x => ?_, fun x hx => hmeas.depthOf (hall x hx),
    fun c => hmeas.refusesDeep c hall⟩
  rw [hmeas.declared, h.mem_iff]

/-- Where a name is shared the first of the others is six levels deep, which a
limit of five refuses. -/
theorem shared_exact :
    DependencyOrder sharedExpressions ["C", "B", "A"]
      ∧ depthsAlong sharedExpressions ["C", "B", "A"] [] = .ok [("C", 1), ("B", 4), ("A", 6)]
      ∧ DepthOf sharedExpressions "A" 6
      ∧ NoCircle sharedExpressions
      ∧ ∃ d, (Checker.mk ⟨"Fields", [], none⟩ 5).checkReferences sharedExpressions = .error d
        ∧ d.name = "NestingDepthError" := by
  have hfound : referenceOrder sharedExpressions = .ok ["C", "B", "A"] := by
    with_unfolding_all rfl
  have horder := dependencyOrder_iff.2 (settled_of_referenceOrder hfound)
  have hcircle : NoCircle sharedExpressions := referenceOrder_succeeds_iff.1 ⟨_, hfound⟩
  have hrun : depthsAlong sharedExpressions ["C", "B", "A"] []
      = .ok [("C", 1), ("B", 4), ("A", 6)] := by with_unfolding_all rfl
  obtain ⟨halong, hreferences⟩ := depths_exact (ρ := RuleRef)
  have hdepth : DepthOf sharedExpressions "A" 6 := by
    obtain ⟨depths, hdepths, -, hexact, -⟩ := halong _ _ horder
    rw [hrun] at hdepths
    injection hdepths with hdepths
    obtain ⟨n, hat, hdepth⟩ := hexact "A" (by decide)
    rw [← hdepths] at hat
    injection hat with hat
    rwa [← hat] at hdepth
  have hrefuses := hreferences ⟨⟨"Fields", [], none⟩, 5⟩ _ hcircle
  obtain ⟨d, hd⟩ := hrefuses.fails_iff.2 ⟨"A", 6, hdepth, by decide⟩
  exact ⟨horder, hrun, hdepth, hcircle, d, hd, (hrefuses.truthful d hd).1⟩

end Verdict
