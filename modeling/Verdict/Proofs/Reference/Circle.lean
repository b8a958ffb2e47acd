/-
What the search of the references comes to. It ends after finitely many
steps, in a circle if some name leads back to itself and in an order of the
names otherwise; the circle that it reports is one, and is the one that the
first name to lead into a circle leads to.

# One step at a time

`visit` goes down as far as `room` allows. `Stage.advance` is the same search
without a bound: a stage keeps the path, and for every name on it the
references that are still to be followed, and one step looks at one of them.
`Stage.Ends` says of a stage that the steps from it come to an end, and to
which. That the steps end as `order` does (`order_ends`) is that `room` is
never used up: a path repeats no name, so it is no longer than there are
names.

# The first name

When the search fails at a name, it is done with all names before it. What is
done leads only to what was done before, so none of these leads into a circle
(`Settled.not_leadsIntoCircle`).

# Main statements

- `referenceOrder_circles`: the search ends, fails exactly where some name
  reaches itself, and then reports a genuine circle.
- `referenceOrder_complete`: an order that is found is one of all declared
  names, each after what it refers to.
-/
import Verdict.Proofs.Reference.Depth

namespace Verdict

namespace ReferenceGraph

-- ============================================================= stages

/-- Where the search stands: the names that it is still to begin at, the path
with what is still to be followed from each name on it, last name first, and
the names that it is done with. -/
structure Stage where
  starts : List String
  path : List (String × List String)
  done : List String

/-- The names on a path, the first one first. -/
def trail (path : List (String × List String)) : List String := (path.map (·.1)).reverse

@[simp] theorem trail_cons (name : String) (refs : List String)
    (path : List (String × List String)) :
    trail ((name, refs) :: path) = trail path ++ [name] := by
  simp [trail]

/-- Where the search of a graph begins. -/
def start (g : ReferenceGraph) : Stage := ⟨g.names, [], []⟩

/-- One step: to another stage, or to the outcome. -/
def Stage.advance (g : ReferenceGraph) :
    Stage → Stage ⊕ Except (List String) (List String)
  | ⟨[], [], done⟩ => .inr (.ok done)
  | ⟨name :: starts, [], done⟩ =>
      if done.contains name then .inl ⟨starts, [], done⟩
      else .inl ⟨starts, [(name, g.references name)], done⟩
  | ⟨starts, (name, []) :: path, done⟩ => .inl ⟨starts, path, done ++ [name]⟩
  | ⟨starts, (name, ref :: refs) :: path, done⟩ =>
      if (trail path ++ [name]).contains ref then
        .inr (.error (trail path ++ [name] ++ [ref]))
      else if done.contains ref || !g.has ref then
        .inl ⟨starts, (name, refs) :: path, done⟩
      else .inl ⟨starts, (ref, g.references ref) :: (name, refs) :: path, done⟩

/-- The steps from a stage end in an outcome. -/
inductive Stage.Ends (g : ReferenceGraph) :
    Stage → Except (List String) (List String) → Prop where
  | over {s : Stage} {o : Except (List String) (List String)}
      (h : s.advance g = .inr o) : Ends g s o
  | step {s s' : Stage} {o : Except (List String) (List String)}
      (h : s.advance g = .inl s') (hs : Ends g s' o) : Ends g s o

variable {g : ReferenceGraph} {o : Except (List String) (List String)}

/-- A part of the search that comes to `x` goes on to `o`: from the stage after
it if it succeeds, and at once if it fails. -/
structure Onward (g : ReferenceGraph) (x : Except (List String) (List String))
    (next : List String → Stage) (o : Except (List String) (List String)) : Prop where
  ok : ∀ done, x = .ok done → (next done).Ends g o
  error : ∀ p, x = .error p → o = .error p

theorem Onward.of_error {p : List String} {next : List String → Stage}
    (h : g.Onward (.error p) next o) : o = .error p :=
  h.error p rfl

theorem Onward.of_ok {done : List String} {next : List String → Stage}
    (h : g.Onward (.ok done) next o) : (next done).Ends g o :=
  h.ok done rfl

-- ============================================================== steps

/-- Following references one after the other is stepping past them. -/
theorem follow_foldlM_ends (room : Nat) {starts : List String} {name : String}
    {path : List (String × List String)} (hroute : g.Route (trail path ++ [name]))
    (hvisit : ∀ refs ref done o, g.Route (trail ((name, refs) :: path) ++ [ref]) →
      g.Onward (visit g room (trail ((name, refs) :: path) ++ [ref]) ref done)
        (fun done' => ⟨starts, (name, refs) :: path, done'⟩) o →
      Stage.Ends g ⟨starts, (ref, g.references ref) :: (name, refs) :: path, done⟩ o)
    (refs : List String) (hrefs : ∀ ref ∈ refs, ref ∈ g.references name) :
    ∀ done, g.Onward (refs.foldlM (g.follow room (trail path ++ [name])) done)
        (fun done' => ⟨starts, (name, []) :: path, done'⟩) o →
      Stage.Ends g ⟨starts, (name, refs) :: path, done⟩ o := by
  induction refs with
  | nil => exact fun done h => h.of_ok
  | cons ref refs ih =>
      intro done h
      have hrest := ih fun r hr => hrefs r (List.mem_cons_of_mem _ hr)
      rw [List.foldlM_cons] at h
      unfold follow at h
      by_cases hon : (trail path ++ [name]).contains ref = true
      · rw [if_pos hon] at h
        rw [h.of_error]
        exact .over (by rw [Stage.advance, if_pos hon])
      · rw [if_neg hon] at h
        by_cases hskip : (done.contains ref || !g.has ref) = true
        · rw [if_pos hskip] at h
          refine .step ?_ (hrest done h)
          rw [Stage.advance, if_neg hon, if_pos hskip]
        · rw [if_neg hskip] at h
          have hstep : Stage.advance g ⟨starts, (name, ref :: refs) :: path, done⟩
              = .inl ⟨starts, (ref, g.references ref) :: (name, refs) :: path, done⟩ := by
            rw [Stage.advance, if_neg hon, if_neg hskip]
          rw [Bool.or_eq_true_iff, not_or] at hskip
          have hdecl : ref ∈ g.names := Table.has_iff.1 (by simpa using hskip.2)
          have hleads : g.Leads name ref := ⟨hrefs ref (List.mem_cons_self ..), hdecl⟩
          have hoff : ref ∉ trail path ++ [name] := fun hmem =>
            hon (List.contains_iff_mem.2 hmem)
          refine .step hstep (hvisit refs ref done o ?_ ⟨fun done' hout => ?_, fun p hout => ?_⟩)
          · rw [trail_cons]
            exact hroute.snoc hleads hoff
          · rw [trail_cons] at hout
            rw [hout] at h
            exact hrest done' h
          · rw [trail_cons] at hout
            rw [hout] at h
            exact h.of_error

/-- A search from the last name of a route is the steps from there until the
name is left, if it has room for the names off the route. -/
theorem visit_ends (room : Nat) :
    ∀ (starts : List String) (path : List (String × List String)) (name : String)
      (done : List String) (o : Except (List String) (List String)),
      g.Route (trail path ++ [name]) → g.length < room + (trail path ++ [name]).length →
      g.Onward (visit g room (trail path ++ [name]) name done)
        (fun done' => ⟨starts, path, done'⟩) o →
      Stage.Ends g ⟨starts, (name, g.references name) :: path, done⟩ o := by
  induction room with
  | zero =>
      intro starts path name done o hroute hroom _
      -- a route longer than there are names
      have hle := hroute.length_le
      omega
  | succ room ih =>
      intro starts path name done o hroute hroom h
      rw [visit_succ] at h
      refine follow_foldlM_ends room hroute ?_ _ (fun ref href => href) done
        ⟨fun done' hout => ?_, fun p hout => ?_⟩
      · intro refs ref done o hroute' h'
        refine ih starts ((name, refs) :: path) ref done o hroute' ?_ h'
        rw [trail_cons, List.length_append, List.length_singleton]
        omega
      · have hstep : Stage.advance g ⟨starts, (name, []) :: path, done'⟩
            = .inl ⟨starts, path, done' ++ [name]⟩ := by rw [Stage.advance]
        exact .step hstep (h.ok _ (by rw [hout]; rfl))
      · exact h.error _ (by rw [hout]; rfl)

/-- Entering names one after the other is stepping from one to the next. -/
theorem enter_foldlM_ends (starts : List String) (hstarts : ∀ x ∈ starts, x ∈ g.names) :
    ∀ done, Stage.Ends g ⟨starts, [], done⟩ (starts.foldlM g.enter done) := by
  induction starts with
  | nil => exact fun done => .over (by rw [Stage.advance]; rfl)
  | cons name starts ih =>
      intro done
      have hrest := ih fun x hx => hstarts x (List.mem_cons_of_mem _ hx)
      rw [List.foldlM_cons]
      unfold enter
      by_cases hdone : done.contains name = true
      · rw [if_pos hdone]
        refine .step ?_ (hrest done)
        rw [Stage.advance, if_pos hdone]
      · rw [if_neg hdone]
        have hstep : Stage.advance g ⟨name :: starts, [], done⟩
            = .inl ⟨starts, [(name, g.references name)], done⟩ := by
          rw [Stage.advance, if_neg hdone]
        have hroute : g.Route (trail [] ++ [name]) :=
          ⟨List.nodup_singleton name,
            fun x hx => List.mem_singleton.1 hx ▸ hstarts name (List.mem_cons_self ..),
            List.isChain_singleton name⟩
        refine .step hstep (visit_ends (g.length + 1) starts [] name done _ hroute ?_ ⟨?_, ?_⟩)
        · rw [List.length_append, List.length_singleton]
          omega
        · intro done' hout
          have hout' : visit g (g.length + 1) [name] name done = .ok done' := hout
          rw [hout']
          exact hrest done'
        · intro p hout
          have hout' : visit g (g.length + 1) [name] name done = .error p := hout
          rw [hout']
          rfl

/-- The search, taken step by step, ends as its order says. -/
theorem order_ends (g : ReferenceGraph) : g.start.Ends g g.order :=
  enter_foldlM_ends g.names (fun _ h => h) []

-- ===================================================== the first name

/-- A name leads to one that leads back to itself. -/
def LeadsIntoCircle (g : ReferenceGraph) (x : String) : Prop :=
  ∃ z, Relation.ReflTransGen g.Leads x z ∧ Relation.TransGen g.Leads z z

/-- What is done leads into no circle. -/
theorem Settled.not_leadsIntoCircle {done : List String} (h : g.Settled done) {x : String}
    (hx : x ∈ done) : ¬ g.LeadsIntoCircle x := by
  intro hcircle
  obtain ⟨z, hxz, hzz⟩ := hcircle
  have hz : z ∈ done := by
    rcases Relation.reflTransGen_iff_eq_or_transGen.1 hxz with rfl | hxz
    · exact hx
    · obtain ⟨pre, post, rfl⟩ := List.append_of_mem hx
      exact List.mem_append_left _ (h.before_of_transGen rfl hxz)
  obtain ⟨pre, post, rfl⟩ := List.append_of_mem hz
  exact not_mem_of_nodup h.nodup (h.before_of_transGen rfl hzz)

/-- A loop that begins with a name shows that the name leads into a circle. -/
theorem Loop.leadsIntoCircle {p : List String} {x : String} (h : g.Loop p)
    (hx : [x] <+: p) : g.LeadsIntoCircle x := by
  obtain ⟨path, z, rfl, -, hz, hchain⟩ := h
  obtain ⟨pre, post, rfl⟩ := List.append_of_mem hz
  refine ⟨z, ?_, ?_⟩
  · cases pre with
    | nil =>
        obtain ⟨rfl, -⟩ := List.cons_prefix_cons.1 hx
        exact .refl
    | cons y pre =>
        obtain ⟨rfl, -⟩ := List.cons_prefix_cons.1 hx
        have hwhole : ((x :: (pre ++ [z])) ++ (post ++ [z])).IsChain g.Leads := by
          simpa using hchain
        exact (transGen_of_chain pre hwhole.left_of_append).to_reflTransGen
  · rw [List.append_assoc, List.cons_append] at hchain
    exact transGen_of_chain post hchain.right_of_append

/-- The search fails at the first declared name that leads into a circle, with a
loop that begins there. -/
theorem order_first {p : List String} (h : g.order = .error p) :
    g.Loop p ∧ ∃ before x after, g.names = before ++ x :: after ∧ [x] <+: p
      ∧ g.LeadsIntoCircle x ∧ ∀ y ∈ before, ¬ g.LeadsIntoCircle y := by
  rw [order_eq] at h
  obtain ⟨before, x, after, done, hnames, hbefore, hx⟩ := Outcome.exists_of_foldlM_error h
  have hdecl : ∀ y ∈ before, y ∈ g.names := by
    intro y hy
    rw [hnames]
    exact List.mem_append_left _ hy
  have hdone := enter_foldlM_explored hdecl
  rw [hbefore] at hdone
  obtain ⟨hset, -, -, hsettled⟩ := hdone
  have hx' : x ∈ g.names := by
    rw [hnames]
    simp
  have hexplored := enter_explored hx' hset
  rw [hx] at hexplored
  obtain ⟨hloop, hprefix⟩ := hexplored
  refine ⟨hloop, before, x, after, hnames, hprefix, hloop.leadsIntoCircle hprefix, ?_⟩
  exact fun y hy => hset.not_leadsIntoCircle (hsettled y hy (hdecl y hy))

end ReferenceGraph

-- ================================================= named expressions

variable {ρ : Type} {es : Expressions ρ}

/-- From a name one can be reached that reaches itself. -/
def ReachesCircle (es : Expressions ρ) (x : String) : Prop :=
  ∃ z, Relation.ReflTransGen (RefersTo es) x z ∧ Relation.TransGen (RefersTo es) z z

theorem leads_eq : (ReferenceGraph.ofExpressions es).Leads = RefersTo es := by
  funext x y
  exact propext leads_iff

theorem leadsIntoCircle_iff {x : String} :
    (ReferenceGraph.ofExpressions es).LeadsIntoCircle x ↔ ReachesCircle es x := by
  unfold ReferenceGraph.LeadsIntoCircle ReachesCircle
  rw [leads_eq]

/-- A path of declared names, each referring to the next and the last to `back`,
which stands on the path. It begins at the first declared name from which a
circle can be reached. -/
structure CirclePath (es : Expressions ρ) (path : List String) (back : String) : Prop where
  nodup : path.Nodup
  declared : ∀ x ∈ path, x ∈ es.names
  refers : (path ++ [back]).IsChain (RefersTo es)
  back_mem : back ∈ path
  first : ∃ x rest before after, path = x :: rest ∧ es.names = before ++ x :: after
    ∧ ReachesCircle es x ∧ ∀ y ∈ before, ¬ ReachesCircle es y

/-- What the search reports is a circle that is first reached. -/
theorem circlePath_of_order {p : List String}
    (h : (ReferenceGraph.ofExpressions es).order = .error p) :
    ∃ path back, p = path ++ [back] ∧ CirclePath es path back := by
  obtain ⟨⟨path, back, rfl, hroute, hback, hchain⟩, before, x, after, hnames, hprefix, hx,
    hbefore⟩ := ReferenceGraph.order_first h
  rw [names_ofExpressions] at hnames
  have hpath : ∃ rest, path = x :: rest := by
    cases path with
    | nil => cases hback
    | cons y rest =>
        obtain ⟨rfl, -⟩ := List.cons_prefix_cons.1 hprefix
        exact ⟨rest, rfl⟩
  obtain ⟨rest, hpath⟩ := hpath
  refine ⟨path, back, rfl, hroute.nodup, ?_, leads_eq ▸ hchain, hback, x, rest, before, after,
    hpath, hnames, leadsIntoCircle_iff.1 hx, fun y hy => ?_⟩
  · rw [← names_ofExpressions]
    exact hroute.declared
  · exact fun hcircle => hbefore y hy (leadsIntoCircle_iff.2 hcircle)

/-- A name that reaches itself is declared. -/
theorem mem_names_of_transGen {x : String} (h : Relation.TransGen (RefersTo es) x x) :
    x ∈ es.names := by
  cases h with
  | single h =>
      obtain ⟨_, -, -, hx⟩ := h
      exact hx
  | tail _ h =>
      obtain ⟨_, -, -, hx⟩ := h
      exact hx

theorem referenceOrder_eq_error {d : Defect} :
    referenceOrder es = .error d
      ↔ ∃ p, (ReferenceGraph.ofExpressions es).order = .error p ∧ d = .cycle p := by
  unfold referenceOrder
  cases (ReferenceGraph.ofExpressions es).order with
  | error p => simp [Except.mapError, eq_comm]
  | ok order => simp [Except.mapError]

/-- The search of the references ends after finitely many steps. It fails
exactly where some declared name reaches itself, and then with the path that
leads from the first name that reaches a circle back to itself. -/
theorem referenceOrder_circles (es : Expressions ρ) :
    (∃ outcome, (ReferenceGraph.ofExpressions es).start.Ends (.ofExpressions es) outcome
        ∧ referenceOrder es = outcome.mapError .cycle)
      ∧ ((∃ d, referenceOrder es = .error d)
        ↔ ∃ x ∈ es.names, Relation.TransGen (RefersTo es) x x)
      ∧ ∀ d, referenceOrder es = .error d →
        ∃ path back, d = .cycle (path ++ [back]) ∧ CirclePath es path back := by
  refine ⟨⟨_, ReferenceGraph.order_ends _, rfl⟩, ⟨fun h => ?_, fun h => ?_⟩, fun d h => ?_⟩
  · obtain ⟨d, h⟩ := h
    obtain ⟨p, hp, -⟩ := referenceOrder_eq_error.1 h
    obtain ⟨path, back, -, hcircle⟩ := circlePath_of_order hp
    obtain ⟨_, _, _, _, _, _, ⟨z, -, hz⟩, -⟩ := hcircle.first
    exact ⟨z, mem_names_of_transGen hz, hz⟩
  · obtain ⟨x, -, hx⟩ := h
    cases horder : referenceOrder es with
    | error d => exact ⟨d, rfl⟩
    | ok order =>
        have hcircle : NoCircle es := referenceOrder_succeeds_iff.1 ⟨order, horder⟩
        exact absurd hx (hcircle x)
  · obtain ⟨p, hp, rfl⟩ := referenceOrder_eq_error.1 h
    obtain ⟨path, back, rfl, hcircle⟩ := circlePath_of_order hp
    exact ⟨path, back, rfl, hcircle⟩

/-- A ring of two names behind a third one, with a reference to no name. -/
def ringExpressions : Expressions RuleRef :=
  [("Root", .not (.named "expr" "X")),
   ("X", .join .all [.rule ⟨"Positive", []⟩, .inline "expr" (.not (.named "expr" "Y"))]),
   ("Y", .join .any [.named "expr" "Nowhere", .named "expr" "X"])]

/-- The search of the ring comes back to it, along a path from the name before
it. -/
theorem ring_circles :
    referenceOrder ringExpressions = .error (.cycle ["Root", "X", "Y", "X"])
      ∧ (∃ x ∈ ringExpressions.names, Relation.TransGen (RefersTo ringExpressions) x x)
      ∧ ∃ path back, Defect.cycle ["Root", "X", "Y", "X"] = .cycle (path ++ [back])
        ∧ CirclePath ringExpressions path back := by
  have hfound : referenceOrder ringExpressions = .error (.cycle ["Root", "X", "Y", "X"]) := by
    with_unfolding_all rfl
  obtain ⟨-, hiff, hpath⟩ := referenceOrder_circles ringExpressions
  exact ⟨hfound, hiff.1 ⟨_, hfound⟩, hpath _ hfound⟩

-- ============================================================= orders

/-- An order of the declared names, each of which stands in it once and after
all declared names that it refers to. -/
structure DependencyOrder (es : Expressions ρ) (order : List String) : Prop where
  nodup : order.Nodup
  mem_iff : ∀ x, x ∈ order ↔ x ∈ es.names
  before : ∀ pre x post, order = pre ++ x :: post → ∀ y, RefersTo es x y → y ∈ pre

theorem dependencyOrder_iff {order : List String} :
    DependencyOrder es order ↔ (ReferenceGraph.ofExpressions es).Settled order
      ∧ ∀ x ∈ es.names, x ∈ order := by
  constructor
  · intro h
    refine ⟨⟨h.nodup, fun x hx => ?_, fun pre x post horder y hy => ?_⟩,
      fun x hx => (h.mem_iff x).2 hx⟩
    · rw [names_ofExpressions]
      exact (h.mem_iff x).1 hx
    · exact h.before pre x post horder y (leads_iff.1 hy)
  · intro h
    obtain ⟨hset, hall⟩ := h
    refine ⟨hset.nodup, fun x => ⟨fun hx => ?_, hall x⟩, fun pre x post horder y hy => ?_⟩
    · rw [← names_ofExpressions]
      exact hset.declared x hx
    · exact hset.before pre x post horder y (leads_iff.2 hy)

/-- An order that is found lists all declared names, each after what it refers
to. -/
theorem referenceOrder_complete {order : List String} (h : referenceOrder es = .ok order) :
    DependencyOrder es order :=
  dependencyOrder_iff.2 (settled_of_referenceOrder h)

/-- A name that two others share, referred to more than once, beside a reference
to no name. -/
def sharedExpressions : Expressions RuleRef :=
  [("A", .join .all [.named "expr" "B", .named "expr" "C", .named "expr" "B",
      .named "expr" "Nowhere"]),
   ("B", .inline "expr" (.not (.named "expr" "C"))),
   ("C", .rule ⟨"Positive", []⟩)]

/-- The search puts the shared name first. -/
theorem shared_complete :
    referenceOrder sharedExpressions = .ok ["C", "B", "A"]
      ∧ DependencyOrder sharedExpressions ["C", "B", "A"] := by
  have hfound : referenceOrder sharedExpressions = .ok ["C", "B", "A"] := by
    with_unfolding_all rfl
  exact ⟨hfound, referenceOrder_complete hfound⟩

end Verdict
