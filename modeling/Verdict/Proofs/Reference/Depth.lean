/-
Depths along an order are heights of expansions: taking the declared names
in an order in which what is referred to comes first gives each name the
number of nodes that stand inside one another once every reference is
followed (`depthsAlong_measured`). On the way every declared name is seen
to have an expansion (`Settled.expands`), so a table without circles has
no expression that leads on without end.

`RefersTo` and `NoCircle` say of named expressions what `Leads` and
`Acyclic` say of their graph.
-/
import Verdict.Proofs.Expr.Expansion
import Verdict.Proofs.Reference.Search
import Verdict.Reference.Depth

namespace Verdict

variable {ρ : Type}

-- ====================================================== named expressions

/-- The expression of one declared name refers to another one. -/
def RefersTo (es : Expressions ρ) (x y : String) : Prop :=
  ∃ e, es.at? x = some e ∧ e.Refers y ∧ y ∈ es.names

/-- No declared name reaches itself through references. -/
def NoCircle (es : Expressions ρ) : Prop :=
  ∀ x, ¬ Relation.TransGen (RefersTo es) x x

variable {es : Expressions ρ}

theorem leads_iff {x y : String} :
    (ReferenceGraph.ofExpressions es).Leads x y ↔ RefersTo es x y := by
  unfold ReferenceGraph.Leads RefersTo ReferenceGraph.references
    ReferenceGraph.ofExpressions
  rw [Table.names_map, Table.at?_map]
  cases es.at? x with
  | none => simp
  | some e => simp [Expr.mem_references]

theorem acyclic_iff : (ReferenceGraph.ofExpressions es).Acyclic ↔ NoCircle es := by
  have hrel : (ReferenceGraph.ofExpressions es).Leads = RefersTo es := by
    funext x y
    exact propext leads_iff
  unfold ReferenceGraph.Acyclic NoCircle
  rw [hrel]

/-- Expressions that refer to nothing have no circle. -/
theorem noCircle_of_closed (h : ∀ e ∈ es, e.2.Closed) : NoCircle es := by
  have hnone : ∀ x y, ¬ RefersTo es x y := by
    intro x y hrefers
    obtain ⟨e, he, hy, -⟩ := hrefers
    exact h _ (Table.mem_of_at? he) y hy
  intro x hx
  cases hx with
  | single h => exact hnone _ _ h
  | tail _ h => exact hnone _ _ h

theorem names_ofExpressions :
    (ReferenceGraph.ofExpressions es).names = es.names :=
  Table.names_map ..

theorem referenceOrder_eq_ok {order : List String} :
    referenceOrder es = .ok order ↔ (ReferenceGraph.ofExpressions es).order = .ok order :=
  Outcome.mapError_eq_ok

/-- An order is found exactly where no name reaches itself. -/
theorem referenceOrder_succeeds_iff :
    (∃ order, referenceOrder es = .ok order) ↔ NoCircle es := by
  simp only [referenceOrder_eq_ok]
  exact ReferenceGraph.order_succeeds_iff.trans acyclic_iff

/-- An order that is found holds all declared names, settled one after the
other. -/
theorem settled_of_referenceOrder {order : List String} (h : referenceOrder es = .ok order) :
    (ReferenceGraph.ofExpressions es).Settled order ∧ ∀ x ∈ es.names, x ∈ order := by
  rw [← names_ofExpressions]
  exact ReferenceGraph.order_settled (referenceOrder_eq_ok.1 h)

-- ============================================================ expansions

/-- Induction over settled names: what a name refers to stands before it, and
has what is proved. -/
theorem ReferenceGraph.Settled.byPlace {order : List String}
    (h : (ofExpressions es).Settled order) {P : List String → String → Expr ρ → Prop}
    (step : ∀ pre x post e, order = pre ++ x :: post → es.at? x = some e →
      (∀ y, e.Refers y → ∀ d, es.at? y = some d →
        ∃ pre', (∀ z ∈ pre' ++ [y], z ∈ pre) ∧ P pre' y d) → P pre x e) :
    ∀ pre x post e, order = pre ++ x :: post → es.at? x = some e → P pre x e := by
  intro pre
  induction hlen : pre.length using Nat.strongRecOn generalizing pre with
  | ind n ih =>
      intro x post e horder he
      refine step pre x post e horder he fun y hy d hd => ?_
      have hlead : RefersTo es x y := ⟨e, he, hy, Table.mem_names_of_at? hd⟩
      have hmem := h.before pre x post horder y (leads_iff.2 hlead)
      obtain ⟨pre', post', rfl⟩ := List.append_of_mem hmem
      have hshort : pre'.length < n := by
        rw [← hlen, List.length_append, List.length_cons]
        omega
      have hsplit : order = pre' ++ y :: (post' ++ x :: post) := by
        rw [horder, List.append_assoc, List.cons_append]
      refine ⟨pre', fun z hz => ?_, ih _ hshort pre' rfl y _ d hsplit hd⟩
      rw [List.append_cons]
      exact List.mem_append_left _ hz

/-- Every settled name has an expansion. -/
theorem ReferenceGraph.Settled.expands {order : List String}
    (h : (ofExpressions es).Settled order) {x : String} {e : Expr ρ} (hx : x ∈ order)
    (he : es.at? x = some e) : ∃ t, Expr.Expands es.at? e t := by
  obtain ⟨pre, post, horder⟩ := List.append_of_mem hx
  refine h.byPlace (P := fun _ _ e => ∃ t, Expr.Expands es.at? e t) ?_ pre x post e horder he
  intro _ _ _ e _ _ ih
  refine Expr.exists_expands fun y hy d hd => ?_
  obtain ⟨-, -, ht⟩ := ih y hy d hd
  exact ht

/-- Where no name reaches itself every declared name has an expansion. -/
theorem NoCircle.expands (h : NoCircle es) {x : String} {e : Expr ρ}
    (he : es.at? x = some e) : ∃ t, Expr.Expands es.at? e t := by
  obtain ⟨order, horder⟩ := referenceOrder_succeeds_iff.2 h
  obtain ⟨hset, hall⟩ := settled_of_referenceOrder horder
  exact hset.expands (hall x (Table.mem_names_of_at? he)) he

-- ================================================================ depths

namespace Expr

mutual

/-- How many levels stand under a node, by recursion, when every reference is followed. -/
def levelsUnder (depths : Table Nat) : Expr ρ → Nat
  | .join _ children => levelsOf depths children
  | .not child => levelsUnder depths child + 1
  | .rule _ => 0
  | .named _ name => (depths.at? name).getD 0
  | .inline _ child => levelsUnder depths child + 1

/-- How many levels the deepest of some nodes has, itself the first. -/
def levelsOf (depths : Table Nat) : List (Expr ρ) → Nat
  | [] => 0
  | e :: rest => max (levelsUnder depths e + 1) (levelsOf depths rest)

end

variable {depths : Table Nat}

/-- What a node adds to its own level is added by what it names, or by its children. -/
theorem levelsUnder_eq (e : Expr ρ) :
    e.levelsUnder depths = levelsNamed depths e + levelsOf depths e.children := by
  cases e <;> simp [levelsUnder, levelsNamed, reference?, levelsOf, children]

/-- The children of a node reach the levels that stand under it. -/
theorem foldl_children (m level : Nat) (es : List (Expr ρ)) :
    ((es.reverse.map fun e => (e, level + 1)).map fun p => p.2 + p.1.levelsUnder depths).foldl
      max (max m level) = max m (level + levelsOf depths es) := by
  rw [List.map_map, List.map_reverse, List.foldl_reverse]
  induction es with
  | nil => rfl
  | cons e es ih =>
      rw [List.map_cons, List.foldr_cons, ih, levelsOf]
      dsimp only [Function.comp_apply]
      omega

/-- A sweep finds the greatest of the levels that the pending nodes reach, each by
recursion. -/
theorem sweep_eq_foldl (deepest : Nat) (pending : List (Expr ρ × Nat)) :
    sweep depths deepest pending
      = (pending.map fun p => p.2 + p.1.levelsUnder depths).foldl max deepest := by
  induction deepest, pending using sweep.induct depths with
  | case1 deepest => rw [sweep, List.map_nil, List.foldl_nil]
  | case2 deepest e level pending reached ih =>
      rw [sweep, ih, List.map_append, List.foldl_append, foldl_children, List.map_cons,
        List.foldl_cons, levelsUnder_eq, Nat.add_assoc]

/-- So the depth of an expression is its own level and those under it. -/
theorem depthIn_eq_levels (e : Expr ρ) : e.depthIn depths = e.levelsUnder depths + 1 := by
  rw [depthIn, sweep_eq_foldl, List.map_singleton, List.foldl_cons, List.foldl_nil,
    Nat.zero_max, Nat.add_comm]

theorem levelsOf_eq_heights {es ts : List (Expr ρ)}
    (h : List.Forall₂ (fun e t => e.levelsUnder depths + 1 = t.height) es ts) :
    levelsOf depths es = heights ts := by
  induction h with
  | nil => rfl
  | cons het _ ih => rw [levelsOf, heights, het, ih]

end Expr

/-- The depth of an expression is the height of its expansion, if the
depths of what it refers to are. -/
theorem depthIn_eq_height {look : String → Option (Expr ρ)} {depths : Table Nat}
    {e t : Expr ρ} (h : Expr.Expands look e t)
    (hknown : ∀ name, e.Refers name → ∀ d t, look name = some d →
      Expr.Expands look d t → depths.at? name = some t.height)
    (hunknown : ∀ name, look name = none → depths.at? name = none) :
    e.depthIn depths = t.height := by
  rw [Expr.depthIn_eq_levels]
  induction e using Expr.induct generalizing t with
  | join c es ih =>
      cases h with
      | join h =>
          have hdepths := Pairs.imp_of_mem h fun e he t _ het =>
            ih e he het fun name hname => hknown name (.under he hname)
          rw [Expr.levelsUnder, Expr.height, Expr.levelsOf_eq_heights hdepths, Nat.add_comm]
  | not e ih =>
      cases h with
      | not h =>
          rw [Expr.levelsUnder, Expr.height, ih h fun name hname =>
            hknown name (Expr.refers_not.2 hname), Nat.add_comm]
  | rule leaf =>
      cases h
      rfl
  | named tag name =>
      cases h with
      | named hname h =>
          rw [Expr.levelsUnder, Expr.height,
            hknown name (Expr.refers_named.2 rfl) _ _ hname h, Option.getD_some, Nat.add_comm]
      | unknown hname =>
          rw [Expr.levelsUnder, Expr.height, hunknown name hname]
          rfl
  | inline tag e ih =>
      cases h with
      | inline h =>
          rw [Expr.levelsUnder, Expr.height, ih h fun name hname =>
            hknown name (Expr.refers_inline.2 hname), Nat.add_comm]

/-- The depths of the names that are done: each is the height of the
name's expansion, and no other name has one. -/
structure Measured (es : Expressions ρ) (done : List String) (depths : Table Nat) :
    Prop where
  nodup : depths.names.Nodup
  declared : ∀ x, x ∈ depths.names ↔ x ∈ done
  height : ∀ x ∈ done, ∃ e t, es.at? x = some e ∧ Expr.Expands es.at? e t
    ∧ depths.at? x = some t.height

/-- One more name is measured when all it refers to is. -/
theorem Measured.put {done : List String} {depths : Table Nat} {x : String}
    {e t : Expr ρ} (h : Measured es done depths) (he : es.at? x = some e)
    (ht : Expr.Expands es.at? e t) (hx : x ∉ done) :
    Measured es (done ++ [x]) (depths.put x t.height) where
  nodup := by
    have hnew : x ∉ depths.names := by
      rwa [h.declared]
    rw [Table.names_put, if_neg hnew]
    exact ReferenceGraph.nodup_snoc h.nodup hnew
  declared := by
    intro y
    rw [Table.names_put, if_neg (by rw [h.declared]; exact hx), List.mem_append,
      List.mem_append, h.declared]
  height := by
    intro y hy
    rw [Table.at?_put]
    rcases List.mem_append.1 hy with hy | hy
    · have hne : x ≠ y := fun heq => hx (heq ▸ hy)
      rw [if_neg hne]
      exact h.height y hy
    · rw [List.mem_singleton.1 hy, if_pos rfl]
      exact ⟨e, t, he, ht, rfl⟩

/-- Along an order of the declared names every name is measured. -/
theorem depthsAlong_measured (rest : List String) :
    ∀ (done : List String) (depths : Table Nat),
      (ReferenceGraph.ofExpressions es).Settled (done ++ rest) →
      Measured es done depths →
      ∃ depths', depthsAlong es rest depths = .ok depths'
        ∧ Measured es (done ++ rest) depths' := by
  induction rest with
  | nil =>
      intro done depths _ h
      exact ⟨depths, rfl, by rwa [List.append_nil]⟩
  | cons x rest ih =>
      intro done depths hset h
      have hdecl : x ∈ es.names := by
        rw [← names_ofExpressions]
        exact hset.declared x (by simp)
      obtain ⟨e, he⟩ := Table.exists_at? hdecl
      obtain ⟨t, ht⟩ := hset.expands (by simp) he
      have hx : x ∉ done := ReferenceGraph.not_mem_of_nodup hset.nodup
      have hdepth : e.depthIn depths = t.height := by
        refine depthIn_eq_height ht ?_ ?_
        · -- what is referred to stands before `x`, so it is measured already
          intro name hname d t' hd ht'
          have hlead : RefersTo es x name :=
            ⟨e, he, hname, Table.mem_names_of_at? hd⟩
          have hmem := hset.before done x rest rfl name (leads_iff.2 hlead)
          obtain ⟨d', t'', hd', ht'', hat⟩ := h.height name hmem
          rw [hd] at hd'
          injection hd' with hd'
          subst hd'
          rw [ht'.unique ht'']
          exact hat
        · intro name hname
          rw [Table.at?_eq_none_iff, h.declared]
          intro hmem
          obtain ⟨d, t', hd, -⟩ := h.height name hmem
          rw [hname] at hd
          cases hd
      rw [List.append_cons] at hset ⊢
      unfold depthsAlong
      rw [he]
      dsimp only
      rw [hdepth]
      exact ih (done ++ [x]) _ hset (h.put he ht hx)

/-- Where no name reaches itself all declared names are measured. -/
theorem NoCircle.measured (h : NoCircle es) :
    ∃ order depths, referenceOrder es = .ok order
      ∧ depthsAlong es order [] = .ok depths ∧ Measured es order depths
      ∧ ∀ x ∈ es.names, x ∈ order := by
  obtain ⟨order, horder⟩ := referenceOrder_succeeds_iff.2 h
  obtain ⟨hset, hall⟩ := settled_of_referenceOrder horder
  have hnone : Measured es [] [] :=
    ⟨List.nodup_nil, fun _ => Iff.rfl, fun _ hx => absurd hx List.not_mem_nil⟩
  obtain ⟨depths, hdepths, hmeas⟩ := depthsAlong_measured order [] [] hset hnone
  exact ⟨order, depths, horder, hdepths, hmeas, hall⟩

-- ================================================================= sizes

/-- An expansion is no higher than the expression has nodes, and the
expansions of what it refers to are high. -/
theorem height_le_size {look : String → Option (Expr ρ)} {n : Nat} {e t : Expr ρ}
    (h : Expr.Expands look e t) (hknown : ∀ name, e.Refers name → ∀ d t,
      look name = some d → Expr.Expands look d t → t.height ≤ n) :
    t.height ≤ e.size + n := by
  induction e using Expr.induct generalizing t with
  | join c es ih =>
      cases h with
      | @join _ _ ts h =>
          have hle : Expr.heights ts ≤ Expr.sizes es + n := by
            refine Expr.heights_le_iff.2 fun t ht => ?_
            obtain ⟨e, he, het⟩ := Pairs.of_mem_right h ht
            have hheight := ih e he het fun name hname => hknown name (.under he hname)
            have hsize := Expr.size_le_sizes he
            omega
          rw [Expr.height, Expr.size]
          omega
  | not e ih =>
      cases h with
      | not h =>
          have hle := ih h fun name hname => hknown name (Expr.refers_not.2 hname)
          rw [Expr.height, Expr.size]
          omega
  | rule leaf =>
      cases h
      exact Nat.le_add_right _ _
  | named tag name =>
      cases h with
      | named hname h =>
          have hle := hknown name (Expr.refers_named.2 rfl) _ _ hname h
          rw [Expr.height, Expr.size]
          omega
      | unknown hname => exact Nat.le_add_right _ _
  | inline tag e ih =>
      cases h with
      | inline h =>
          have hle := ih h fun name hname => hknown name (Expr.refers_inline.2 hname)
          rw [Expr.height, Expr.size]
          omega

/-- The number of nodes of the expressions under some names. -/
def nodesOf (es : Expressions ρ) (names : List String) : Nat :=
  Expr.sizes ((es.filter fun e => e.1 ∈ names).map (·.2))

theorem nodesOf_cons (x : String) (e : Expr ρ) (es : Expressions ρ) (names : List String) :
    nodesOf ((x, e) :: es) names
      = (if x ∈ names then e.size else 0) + nodesOf es names := by
  unfold nodesOf
  by_cases hx : x ∈ names
  · simp [hx, Expr.sizes]
  · simp [hx]

theorem nodesOf_mono {names more : List String} (h : ∀ x ∈ names, x ∈ more) :
    nodesOf es names ≤ nodesOf es more := by
  induction es with
  | nil => exact Nat.le_refl _
  | cons e es ih =>
      obtain ⟨x, e⟩ := e
      rw [nodesOf_cons, nodesOf_cons]
      by_cases hx : x ∈ names
      · rw [if_pos hx, if_pos (h x hx)]
        omega
      · rw [if_neg hx]
        omega

theorem nodesOf_le (names : List String) :
    nodesOf es names ≤ Expr.sizes (es.map (·.2)) := by
  induction es with
  | nil => exact Nat.le_refl _
  | cons e es ih =>
      obtain ⟨x, e⟩ := e
      rw [nodesOf_cons, List.map_cons, Expr.sizes]
      dsimp only
      by_cases hx : x ∈ names
      · rw [if_pos hx]
        omega
      · rw [if_neg hx]
        omega

/-- A name that is new adds the nodes of its expression. -/
theorem nodesOf_snoc {names : List String} {x : String} {e : Expr ρ} (hx : x ∉ names)
    (he : es.at? x = some e) : nodesOf es names + e.size ≤ nodesOf es (names ++ [x]) := by
  induction es with
  | nil => cases he
  | cons d es ih =>
      obtain ⟨y, d⟩ := d
      rw [nodesOf_cons, nodesOf_cons]
      rw [Table.at?] at he
      by_cases hxy : y = x
      · subst hxy
        rw [if_pos rfl] at he
        injection he with he
        have hmono : nodesOf es names ≤ nodesOf es (names ++ [y]) :=
          nodesOf_mono fun z hz => List.mem_append_left _ hz
        rw [if_neg hx, if_pos (by simp), he]
        omega
      · rw [if_neg hxy] at he
        have hle := ih he
        have hiff : y ∈ names ++ [x] ↔ y ∈ names := by simp [hxy]
        simp only [hiff]
        omega

/-- Along an order the expansion of a name is no higher than there are nodes
up to it. -/
theorem ReferenceGraph.Settled.height_le {order : List String}
    (h : (ofExpressions es).Settled order) {pre post : List String} {x : String}
    {e : Expr ρ} (horder : order = pre ++ x :: post) (he : es.at? x = some e) :
    ∀ t, Expr.Expands es.at? e t → t.height ≤ nodesOf es (pre ++ [x]) := by
  refine h.byPlace (P := fun pre x e => ∀ t, Expr.Expands es.at? e t →
    t.height ≤ nodesOf es (pre ++ [x])) ?_ pre x post e horder he
  intro pre x post e horder he ih t ht
  have hx : x ∉ pre := ReferenceGraph.not_mem_of_nodup (horder ▸ h.nodup)
  have hle : t.height ≤ e.size + nodesOf es pre := by
    refine height_le_size ht fun y hy d t' hd ht' => ?_
    obtain ⟨pre', hsub, hheight⟩ := ih y hy d hd
    exact Nat.le_trans (hheight t' ht') (nodesOf_mono hsub)
  have hsnoc := nodesOf_snoc hx he
  omega

/-- Where no name reaches itself no expansion is higher than there are
nodes. -/
theorem NoCircle.height_le (h : NoCircle es) {x : String} {e t : Expr ρ}
    (he : es.at? x = some e) (ht : Expr.Expands es.at? e t) :
    t.height ≤ Expr.sizes (es.map (·.2)) := by
  obtain ⟨order, horder⟩ := referenceOrder_succeeds_iff.2 h
  obtain ⟨hset, hall⟩ := settled_of_referenceOrder horder
  obtain ⟨pre, post, hsplit⟩ := List.append_of_mem (hall x (Table.mem_names_of_at? he))
  exact Nat.le_trans (hset.height_le hsplit he t ht) (nodesOf_le _)

end Verdict
