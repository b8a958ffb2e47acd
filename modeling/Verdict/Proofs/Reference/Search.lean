/-
The search of the reference graph decides whether a name leads back to
itself: it puts all declared names into an order in which what is referred
to comes first (`order_settled`), or it finds a path that comes back to
one of its own names (`order_loop`). Hence it succeeds exactly on the
graphs without circles (`order_succeeds_iff`).

# The invariant

While the search stands at the end of a path, the names it is done with
are `Settled`: each of them is declared, stands there once, and comes
after all it leads to. None of them is on the path. A name is done with
only when all it leads to is, so it can go last.

The search goes one name deeper at each step and a path repeats no name,
so `room`, which starts above the number of names, is never used up.
-/
import Mathlib.Data.List.Chain
import Mathlib.Data.List.Nodup
import Mathlib.Logic.Relation
import Verdict.Proofs.Expr.Nodes
import Verdict.Proofs.Outcome
import Verdict.Proofs.Table
import Verdict.Reference.Graph

namespace Verdict.ReferenceGraph

-- ========================================================= vocabulary

/-- A name refers to a declared name. -/
def Leads (g : ReferenceGraph) (x y : String) : Prop :=
  y ∈ g.references x ∧ y ∈ g.names

/-- No name leads back to itself. -/
def Acyclic (g : ReferenceGraph) : Prop :=
  ∀ x, ¬ Relation.TransGen g.Leads x x

/-- Declared names in an order in which each stands once and after all
that it leads to. -/
structure Settled (g : ReferenceGraph) (done : List String) : Prop where
  nodup : done.Nodup
  declared : ∀ x ∈ done, x ∈ g.names
  before : ∀ pre x post, done = pre ++ x :: post → ∀ y, g.Leads x y → y ∈ pre

/-- Distinct declared names, each leading to the next. -/
structure Route (g : ReferenceGraph) (path : List String) : Prop where
  nodup : path.Nodup
  declared : ∀ x ∈ path, x ∈ g.names
  chain : path.IsChain g.Leads

/-- A route and, after it, the name on it that it comes back to. -/
def Loop (g : ReferenceGraph) (p : List String) : Prop :=
  ∃ path x, p = path ++ [x] ∧ g.Route path ∧ x ∈ path ∧ p.IsChain g.Leads

-- ============================================== lists grown at the end

theorem nodup_snoc {l : List String} {x : String} (h : l.Nodup) (hx : x ∉ l) :
    (l ++ [x]).Nodup := by
  refine List.nodup_append.2 ⟨h, List.nodup_singleton x, ?_⟩
  intro a ha b hb hab
  rw [List.mem_singleton.1 hb] at hab
  exact hx (hab ▸ ha)

/-- A name that stands once does not stand before itself. -/
theorem not_mem_of_nodup {pre post : List String} {x : String}
    (h : (pre ++ x :: post).Nodup) : x ∉ pre := by
  intro hx
  exact (List.nodup_append.1 h).2.2 x hx x (List.mem_cons_self ..) rfl

theorem chain_snoc {R : String → String → Prop} {l : List String} {x y : String}
    (h : (l ++ [x]).IsChain R) (hxy : R x y) : (l ++ [x] ++ [y]).IsChain R := by
  refine List.IsChain.append h (List.isChain_singleton y) ?_
  intro a ha b hb
  rw [List.getLast?_concat] at ha
  injection ha with ha
  injection hb with hb
  rwa [← ha, ← hb]

/-- From the first to the last name of a chain. -/
theorem transGen_of_chain {R : String → String → Prop} (l : List String) :
    ∀ {x y : String}, (x :: (l ++ [y])).IsChain R → Relation.TransGen R x y := by
  induction l with
  | nil =>
      intro x y h
      exact .single (List.isChain_pair.1 h)
  | cons z l ih =>
      intro x y h
      obtain ⟨hxz, h⟩ := List.isChain_cons_cons.1 h
      exact .head hxz (ih h)

-- ==================================================== routes and loops

variable {g : ReferenceGraph}

theorem Route.length_le {path : List String} (h : g.Route path) :
    path.length ≤ g.length := by
  have hle := h.nodup.length_le_of_subset h.declared
  unfold Table.names at hle
  rwa [List.length_map] at hle

/-- A route goes on to a name that is not on it. -/
theorem Route.snoc {path : List String} {x y : String} (h : g.Route (path ++ [x]))
    (hxy : g.Leads x y) (hy : y ∉ path ++ [x]) : g.Route (path ++ [x] ++ [y]) where
  nodup := nodup_snoc h.nodup hy
  declared := by
    intro a ha
    rcases List.mem_append.1 ha with ha | ha
    · exact h.declared a ha
    · rw [List.mem_singleton.1 ha]
      exact hxy.2
  chain := chain_snoc h.chain hxy

/-- Where the search comes back there is a circle. -/
theorem Loop.not_acyclic {p : List String} (h : g.Loop p) : ¬ g.Acyclic := by
  obtain ⟨path, x, rfl, -, hx, hchain⟩ := h
  obtain ⟨pre, post, rfl⟩ := List.append_of_mem hx
  rw [List.append_assoc, List.cons_append] at hchain
  exact fun hacyclic => hacyclic x (transGen_of_chain post hchain.right_of_append)

-- ======================================================= settled names

theorem settled_nil : g.Settled [] where
  nodup := List.nodup_nil
  declared := fun _ h => absurd h List.not_mem_nil
  before := by
    intro pre x post h
    simp at h

/-- A name goes last once all it leads to is settled. -/
theorem Settled.snoc {done : List String} {name : String} (h : g.Settled done)
    (hnew : name ∉ done) (hname : name ∈ g.names)
    (hleads : ∀ y, g.Leads name y → y ∈ done) : g.Settled (done ++ [name]) where
  nodup := nodup_snoc h.nodup hnew
  declared := by
    intro a ha
    rcases List.mem_append.1 ha with ha | ha
    · exact h.declared a ha
    · rwa [List.mem_singleton.1 ha]
  before := by
    intro pre x post heq y hy
    rcases List.eq_nil_or_concat post with rfl | ⟨post', last, rfl⟩
    · obtain ⟨rfl, hx⟩ := List.append_inj' heq rfl
      injection hx with hx _
      subst hx
      exact hleads y hy
    · have hsplit : done ++ [name] = (pre ++ x :: post') ++ [last] := by
        rw [heq]
        simp
      obtain ⟨hdone, -⟩ := List.append_inj' hsplit rfl
      exact h.before pre x post' hdone y hy

/-- What a settled name leads to stands before it, however far away. -/
theorem Settled.before_of_transGen {done pre post : List String} {x y : String}
    (h : g.Settled done) (hdone : done = pre ++ x :: post)
    (hxy : Relation.TransGen g.Leads x y) : y ∈ pre := by
  induction hxy with
  | single hxy => exact h.before pre x post hdone _ hxy
  | tail _ hyz ih =>
      obtain ⟨pre', post', rfl⟩ := List.append_of_mem ih
      have hz := h.before pre' _ (post' ++ x :: post) (by simp [hdone]) _ hyz
      exact List.mem_append_left _ hz

/-- Where all names are settled there is no circle. -/
theorem Settled.acyclic {done : List String} (h : g.Settled done)
    (hall : ∀ x ∈ g.names, x ∈ done) : g.Acyclic := by
  intro x hx
  have hname : x ∈ g.names := by
    cases hx with
    | single hxx => exact hxx.2
    | tail _ hyx => exact hyx.2
  obtain ⟨pre, post, hdone⟩ := List.append_of_mem (hall x hname)
  have hpre := h.before_of_transGen hdone hx
  have hnd := h.nodup
  rw [hdone] at hnd
  exact not_mem_of_nodup hnd hpre

-- ========================================================== the search

/-- What a part of the search may end with. It came along `path`, keeps
the names of `avoid` for later, and was to settle `names` beside the names
it was done with: these it has then settled, or it has found a loop that
begins with the path. -/
def Explored (g : ReferenceGraph) (path avoid names done : List String) :
    Except (List String) (List String) → Prop
  | .ok done' => g.Settled done'
      ∧ (∀ x ∈ done, x ∈ done')
      ∧ (∀ x ∈ done', x ∈ done ∨ x ∉ avoid)
      ∧ ∀ x ∈ names, x ∈ g.names → x ∈ done'
  | .error p => g.Loop p ∧ path <+: p

/-- The step of the search from the last name of a path to one that it
refers to. -/
def follow (g : ReferenceGraph) (room : Nat) (path done : List String)
    (ref : String) : Except (List String) (List String) :=
  if path.contains ref then .error (path ++ [ref])
  else if done.contains ref || !g.has ref then .ok done
  else visit g room (path ++ [ref]) ref done

theorem visit_succ (g : ReferenceGraph) (room : Nat) (path : List String)
    (name : String) (done : List String) :
    visit g (room + 1) path name done
      = ((g.references name).foldlM (g.follow room path) done).map (· ++ [name]) := by
  show (_ >>= fun done => pure (done ++ [name])) = _
  exact (map_eq_pure_bind (· ++ [name]) _).symm

/-- Steps that settle a name each settle all names they are taken for. -/
theorem explored_foldlM {path : List String}
    {step : List String → String → Except (List String) (List String)}
    (names : List String)
    (hstep : ∀ name ∈ names, ∀ done, g.Settled done → (∀ x ∈ done, x ∉ path) →
      g.Explored path path [name] done (step done name)) :
    ∀ done, g.Settled done → (∀ x ∈ done, x ∉ path) →
      g.Explored path path names done (names.foldlM step done) := by
  induction names with
  | nil =>
      intro done hset _
      exact ⟨hset, fun _ h => h, fun _ h => Or.inl h,
        fun _ h => absurd h List.not_mem_nil⟩
  | cons name names ih =>
      intro done hset hpath
      have hfirst := hstep name (List.mem_cons_self ..) done hset hpath
      rw [List.foldlM_cons]
      cases hout : step done name with
      | error p =>
          rw [hout] at hfirst
          exact hfirst
      | ok done₁ =>
          rw [hout] at hfirst
          obtain ⟨hset₁, hkept₁, hfresh₁, hname₁⟩ := hfirst
          have hpath₁ : ∀ x ∈ done₁, x ∉ path := by
            intro x hx
            rcases hfresh₁ x hx with hx | hx
            · exact hpath x hx
            · exact hx
          have hrest := ih (fun n hn => hstep n (List.mem_cons_of_mem _ hn))
            done₁ hset₁ hpath₁
          show g.Explored path path (name :: names) done (names.foldlM step done₁)
          cases hout₂ : names.foldlM step done₁ with
          | error p =>
              rw [hout₂] at hrest
              exact hrest
          | ok done₂ =>
              rw [hout₂] at hrest
              obtain ⟨hset₂, hkept₂, hfresh₂, hnames₂⟩ := hrest
              refine ⟨hset₂, fun x hx => hkept₂ x (hkept₁ x hx), ?_, ?_⟩
              · intro x hx
                rcases hfresh₂ x hx with hx | hx
                · exact hfresh₁ x hx
                · exact Or.inr hx
              · intro x hx hdecl
                rcases List.mem_cons.1 hx with rfl | hx
                · exact hkept₂ x (hname₁ x (List.mem_singleton_self x) hdecl)
                · exact hnames₂ x hx hdecl

/-- A step to a name settles it, if the search from there would; one that
is already on the path closes a loop. -/
theorem follow_explored {room : Nat} {path done : List String} {name ref : String}
    (href : ref ∈ g.references name) (hroute : g.Route (path ++ [name]))
    (hset : g.Settled done) (hpath : ∀ x ∈ done, x ∉ path ++ [name])
    (hvisit : g.Route (path ++ [name] ++ [ref]) →
      (∀ x ∈ done, x ∉ path ++ [name] ++ [ref]) →
      g.Explored (path ++ [name] ++ [ref]) (path ++ [name]) [ref] done
        (visit g room (path ++ [name] ++ [ref]) ref done)) :
    g.Explored (path ++ [name]) (path ++ [name]) [ref] done
      (g.follow room (path ++ [name]) done ref) := by
  unfold follow
  split
  next hon =>
    have hmem : ref ∈ path ++ [name] := List.contains_iff_mem.1 hon
    have hleads : g.Leads name ref := ⟨href, hroute.declared ref hmem⟩
    exact ⟨⟨_, ref, rfl, hroute, hmem, chain_snoc hroute.chain hleads⟩,
      List.prefix_append ..⟩
  next hoff =>
    have hnotin : ref ∉ path ++ [name] := fun h => hoff (List.contains_iff_mem.2 h)
    split
    next hskip =>
      refine ⟨hset, fun _ h => h, fun _ h => Or.inl h, ?_⟩
      intro x hx hdecl
      rw [List.mem_singleton.1 hx] at hdecl ⊢
      rcases Bool.or_eq_true_iff.1 hskip with hdone | hundecl
      · exact List.contains_iff_mem.1 hdone
      · rw [Table.has_iff.2 hdecl] at hundecl
        cases hundecl
    next hgo =>
      rw [Bool.or_eq_true_iff, not_or] at hgo
      have hdecl : ref ∈ g.names := Table.has_iff.1 (by simpa using hgo.2)
      have hnotdone : ref ∉ done := fun h => hgo.1 (List.contains_iff_mem.2 h)
      have hpath' : ∀ x ∈ done, x ∉ path ++ [name] ++ [ref] := by
        intro x hx hmem
        rcases List.mem_append.1 hmem with hmem | hmem
        · exact hpath x hx hmem
        · exact hnotdone (List.mem_singleton.1 hmem ▸ hx)
      have hexp := hvisit (hroute.snoc ⟨href, hdecl⟩ hnotin) hpath'
      cases hout : visit g room (path ++ [name] ++ [ref]) ref done with
      | ok done' =>
          rw [hout] at hexp
          exact hexp
      | error p =>
          rw [hout] at hexp
          exact ⟨hexp.1, (List.prefix_append ..).trans hexp.2⟩

/-- A search from a name settles it, or comes back to its path. -/
theorem visit_explored (room : Nat) :
    ∀ (path : List String) (name : String) (done : List String),
      g.Route (path ++ [name]) → g.Settled done →
      (∀ x ∈ done, x ∉ path ++ [name]) →
      g.length < room + (path ++ [name]).length →
      g.Explored (path ++ [name]) path [name] done
        (visit g room (path ++ [name]) name done) := by
  induction room with
  | zero =>
      intro path name done hroute _ _ hroom
      -- a route longer than there are names
      have hle := hroute.length_le
      omega
  | succ room ih =>
      intro path name done hroute hset hpath hroom
      have hfold := explored_foldlM (g.references name)
        (fun ref href done hset hpath =>
          follow_explored href hroute hset hpath fun hroute' hpath' =>
            ih (path ++ [name]) ref done hroute' hset hpath' (by
              rw [List.length_append, List.length_singleton]
              omega))
        done hset hpath
      rw [visit_succ]
      cases hout : (g.references name).foldlM (g.follow room (path ++ [name])) done with
      | error p =>
          rw [hout] at hfold
          exact hfold
      | ok done₁ =>
          rw [hout] at hfold
          obtain ⟨hset₁, hkept₁, hfresh₁, hrefs₁⟩ := hfold
          have hself : name ∈ path ++ [name] := by simp
          -- the search below keeps off the path, so the name is still to come
          have hnew : name ∉ done₁ := by
            intro h
            rcases hfresh₁ name h with h | h
            · exact hpath name h hself
            · exact h hself
          refine ⟨hset₁.snoc hnew (hroute.declared name hself) ?_, ?_, ?_, ?_⟩
          · exact fun y hy => hrefs₁ y hy.1 hy.2
          · exact fun x hx => List.mem_append_left _ (hkept₁ x hx)
          · intro x hx
            rcases List.mem_append.1 hx with hx | hx
            · refine (hfresh₁ x hx).imp_right fun h hmem => h ?_
              exact List.mem_append_left _ hmem
            · rw [List.mem_singleton.1 hx]
              exact Or.inr (not_mem_of_nodup hroute.nodup)
          · intro x hx _
            exact List.mem_append_right _ hx

/-- What a part of the search that came along a longer path may end with. -/
theorem Explored.of_longer {path path' avoid names done : List String}
    {out : Except (List String) (List String)} (hpath : path <+: path')
    (h : g.Explored path' avoid names done out) : g.Explored path avoid names done out := by
  cases out with
  | ok done' => exact h
  | error p => exact ⟨h.1, hpath.trans h.2⟩

/-- The step of the search to a name where it stands nowhere yet. -/
def enter (g : ReferenceGraph) (done : List String) (name : String) :
    Except (List String) (List String) :=
  if done.contains name then .ok done else visit g (g.length + 1) [name] name done

theorem order_eq (g : ReferenceGraph) : g.order = g.names.foldlM g.enter [] := rfl

/-- Entering a declared name settles it, or finds a loop that begins with it. -/
theorem enter_explored {name : String} {done : List String} (hname : name ∈ g.names)
    (hset : g.Settled done) : g.Explored [name] [] [name] done (g.enter done name) := by
  unfold enter
  split
  next hdone =>
    refine ⟨hset, fun _ h => h, fun _ h => Or.inl h, ?_⟩
    intro x hx _
    rw [List.mem_singleton.1 hx]
    exact List.contains_iff_mem.1 hdone
  next hnotdone =>
    have hroute : g.Route ([] ++ [name]) :=
      ⟨List.nodup_singleton name,
        fun x hx => List.mem_singleton.1 hx ▸ hname, List.isChain_singleton name⟩
    refine visit_explored (g.length + 1) [] name done hroute hset ?_ ?_
    · intro x hx hmem
      rw [List.mem_singleton.1 hmem] at hx
      exact hnotdone (List.contains_iff_mem.2 hx)
    · rw [List.nil_append, List.length_singleton]
      omega

/-- Entering names settles them all, or comes back to a path. -/
theorem enter_foldlM_explored {names : List String} (hnames : ∀ x ∈ names, x ∈ g.names) :
    g.Explored [] [] names [] (names.foldlM g.enter []) := by
  refine explored_foldlM names ?_ [] settled_nil (fun _ h => absurd h List.not_mem_nil)
  intro name hname done hset _
  exact (enter_explored (hnames name hname) hset).of_longer List.nil_prefix

/-- The whole search settles all names, or comes back to a path. -/
theorem order_explored (g : ReferenceGraph) : g.Explored [] [] g.names [] g.order := by
  rw [order_eq]
  exact enter_foldlM_explored fun _ h => h

/-- An order that is found settles all declared names. -/
theorem order_settled {done : List String} (h : g.order = .ok done) :
    g.Settled done ∧ ∀ x ∈ g.names, x ∈ done := by
  have hexp := g.order_explored
  rw [h] at hexp
  exact ⟨hexp.1, fun x hx => hexp.2.2.2 x hx hx⟩

/-- A path that is found comes back to itself. -/
theorem order_loop {p : List String} (h : g.order = .error p) : g.Loop p := by
  have hexp := g.order_explored
  rw [h] at hexp
  exact hexp.1

/-- The search succeeds exactly where no name leads back to itself. -/
theorem order_succeeds_iff : (∃ done, g.order = .ok done) ↔ g.Acyclic := by
  constructor
  · intro h
    obtain ⟨done, h⟩ := h
    exact (order_settled h).1.acyclic (order_settled h).2
  · intro h
    cases hout : g.order with
    | ok done => exact ⟨done, rfl⟩
    | error p => exact absurd h (order_loop hout).not_acyclic

end Verdict.ReferenceGraph
