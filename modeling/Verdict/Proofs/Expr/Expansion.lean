/-
Expansions: an expression with every reference followed, all the way
down. A reference by name becomes a node over the expansion of what the
name stands for; a name that stands for nothing stays a leaf.

An expansion need not exist: an expression that leads back into itself
has none. Where it exists it is the only one (`Expands.unique`), and it
exists as soon as the names that the expression refers to have theirs
(`exists_expands`), which is what an order of the names is walked for.

Two facts carry over from the expressions to the expansion: its leaves are
leaves of theirs (`Expands.origin`), and where every name stands for
something nothing in it is named (`Expands.closed`).
-/
import Verdict.Proofs.Expr.Nodes
import Verdict.Proofs.Pairs

namespace Verdict.Expr

variable {ρ σ : Type}

/-- `t` is the expansion of `e`, where `look` gives what names stand for. -/
inductive Expands (look : String → Option (Expr ρ)) : Expr ρ → Expr ρ → Prop where
  | join {c : Connective} {es ts : List (Expr ρ)}
      (h : List.Forall₂ (Expands look) es ts) : Expands look (.join c es) (.join c ts)
  | not {e t : Expr ρ} (h : Expands look e t) : Expands look (.not e) (.not t)
  | rule (leaf : ρ) : Expands look (.rule leaf) (.rule leaf)
  | named {tag name : String} {e t : Expr ρ} (hname : look name = some e)
      (h : Expands look e t) : Expands look (.named tag name) (.inline tag t)
  | unknown {tag name : String} (hname : look name = none) :
      Expands look (.named tag name) (.named tag name)
  | inline {tag : String} {e t : Expr ρ} (h : Expands look e t) :
      Expands look (.inline tag e) (.inline tag t)

/-- Nothing in an expression is named. -/
def Closed (e : Expr ρ) : Prop := ∀ name, ¬ e.Refers name

/-- Every name that an expression refers to stands for something. -/
def Resolved (look : String → Option (Expr ρ)) (e : Expr ρ) : Prop :=
  ∀ name, e.Refers name → ∃ d, look name = some d

variable {look : String → Option (Expr ρ)} {e t : Expr ρ}

theorem Closed.child (h : e.Closed) {child : Expr ρ} (hchild : child ∈ e.children) :
    child.Closed :=
  fun name hname => h name (.under hchild hname)

-- ========================================================== uniqueness

theorem Expands.unique {t' : Expr ρ} (h : Expands look e t) (h' : Expands look e t') :
    t = t' := by
  induction t using induct generalizing e t' with
  | join c ts ih =>
      cases h with
      | join h =>
          cases h' with
          | join h' =>
              rw [Pairs.unique h h' fun t ht e t' he he' => ih t ht he he']
  | not t ih =>
      cases h with
      | not h =>
          cases h' with
          | not h' => rw [ih h h']
  | rule leaf =>
      cases h
      cases h'
      rfl
  | named tag name =>
      cases h with
      | unknown hname =>
          cases h' with
          | unknown _ => rfl
          | named hname' _ => rw [hname] at hname'; cases hname'
  | inline tag t ih =>
      cases h with
      | named hname h =>
          cases h' with
          | unknown hname' => rw [hname] at hname'; cases hname'
          | named hname' h' =>
              rw [hname] at hname'
              injection hname' with hname'
              subst hname'
              rw [ih h h']
      | inline h =>
          cases h' with
          | inline h' => rw [ih h h']

-- ========================================================= other names

/-- The names that an expression leads to decide what it expands to, whatever
else there is. -/
theorem Expands.agree {look' : String → Option (Expr ρ)} {known : String → Prop}
    (h : Expands look e t) (hlook : ∀ name, known name → look' name = look name)
    (hclosed : ∀ name d, known name → look name = some d → ∀ other, d.Refers other → known other)
    (he : ∀ name, e.Refers name → known name) : Expands look' e t := by
  induction t using induct generalizing e with
  | join c ts ih =>
      cases h with
      | join h =>
          refine .join (Pairs.imp_of_mem h fun e hmem t ht hexp => ?_)
          exact ih t ht hexp fun name hname => he name (.under hmem hname)
  | not t ih =>
      cases h with
      | not h => exact .not (ih h fun name hname => he name (refers_not.2 hname))
  | rule leaf =>
      cases h
      exact .rule leaf
  | named tag name =>
      cases h with
      | unknown hname =>
          rw [← hlook name (he name (refers_named.2 rfl))] at hname
          exact .unknown hname
  | inline tag t ih =>
      cases h with
      | @named _ name _ _ hname h =>
          have hknown := he name (refers_named.2 rfl)
          have hname' : look' name = some _ := (hlook name hknown).trans hname
          exact .named hname' (ih h (hclosed name _ hknown hname))
      | inline h => exact .inline (ih h fun name hname => he name (refers_inline.2 hname))

-- =========================================================== existence

/-- An expression has an expansion when all that it refers to has one. -/
theorem exists_expands
    (h : ∀ name, e.Refers name → ∀ d, look name = some d → ∃ t, Expands look d t) :
    ∃ t, Expands look e t := by
  induction e using induct with
  | join c children ih =>
      have hchildren : ∀ child ∈ children, ∃ t, Expands look child t := by
        intro child hchild
        exact ih child hchild fun name hname => h name (.under hchild hname)
      obtain ⟨ts, hts⟩ := Pairs.exists_of_forall hchildren
      exact ⟨_, .join hts⟩
  | not child ih =>
      obtain ⟨t, ht⟩ := ih fun name hname => h name (refers_not.2 hname)
      exact ⟨_, .not ht⟩
  | rule leaf => exact ⟨_, .rule leaf⟩
  | named tag name =>
      cases hname : look name with
      | none => exact ⟨_, .unknown hname⟩
      | some d =>
          obtain ⟨t, ht⟩ := h name (refers_named.2 rfl) d hname
          exact ⟨_, .named hname ht⟩
  | inline tag child ih =>
      obtain ⟨t, ht⟩ := ih fun name hname => h name (refers_inline.2 hname)
      exact ⟨_, .inline ht⟩

-- ============================================================== origin

/-- Where the leaves and names of an expansion come from: the expression, or
one of those that names stand for. -/
theorem Expands.origin (h : Expands look e t) {leaf : Expr ρ} (hw : Within leaf t)
    (hleaf : leaf.IsLeaf) :
    Within leaf e ∨ ∃ name d, look name = some d ∧ Within leaf d := by
  induction t using induct generalizing e with
  | join c ts ih =>
      cases h with
      | join h =>
          obtain ⟨t, ht, hw⟩ := (within_join hleaf).1 hw
          obtain ⟨e, he, hexp⟩ := Pairs.of_mem_right h ht
          exact (ih t ht hexp hw).imp_left (.under he)
  | not t ih =>
      cases h with
      | not h => exact (ih h ((within_not hleaf).1 hw)).imp_left (within_not hleaf).2
  | rule r =>
      cases h
      exact Or.inl hw
  | named tag name =>
      cases h
      exact Or.inl hw
  | inline tag t ih =>
      have hw := (within_inline hleaf).1 hw
      cases h with
      | named hname h =>
          refine Or.inr ?_
          rcases ih h hw with hw | hw
          · exact ⟨_, _, hname, hw⟩
          · exact hw
      | inline h => exact (ih h hw).imp_left (within_inline hleaf).2

/-- A reference that is left in an expansion is to a name that stands for
nothing. -/
theorem Expands.unknown_of_refers (h : Expands look e t) {name : String}
    (hname : t.Refers name) : look name = none := by
  induction t using induct generalizing e with
  | join c ts ih =>
      cases h with
      | join h =>
          obtain ⟨t, ht, hname⟩ := refers_join.1 hname
          obtain ⟨e, -, hexp⟩ := Pairs.of_mem_right h ht
          exact ih t ht hexp hname
  | not t ih =>
      cases h with
      | not h => exact ih h (refers_not.1 hname)
  | rule r => exact absurd hname not_refers_rule
  | named tag other =>
      cases h with
      | unknown hnone =>
          rw [refers_named.1 hname]
          exact hnone
  | inline tag t ih =>
      have hname := refers_inline.1 hname
      cases h with
      | named _ h => exact ih h hname
      | inline h => exact ih h hname

/-- Where every name stands for something, nothing in an expansion is
named. -/
theorem Expands.closed (h : Expands look e t) (he : e.Resolved look)
    (hlook : ∀ name d, look name = some d → d.Resolved look) : t.Closed := by
  intro name hname
  have hnone := h.unknown_of_refers hname
  obtain ⟨tag, hw⟩ := hname
  have hsome : ∃ d, look name = some d := by
    rcases h.origin hw trivial with hw | ⟨other, d, hd, hw⟩
    · exact he name ⟨tag, hw⟩
    · exact hlook other d hd name ⟨tag, hw⟩
  obtain ⟨d, hd⟩ := hsome
  rw [hnone] at hd
  cases hd

/-- An expansion in which nothing is named has a leaf, if no connective that
it is made from is without children. -/
theorem Expands.exists_leaf (h : Expands look e t) (ht : t.Closed) (he : e.Full)
    (hlook : ∀ name d, look name = some d → d.Full) :
    ∃ leaf, Within (.rule leaf) t := by
  induction t using induct generalizing e with
  | join c ts ih =>
      cases h with
      | join h =>
          cases h with
          | nil => exact absurd .self (he c)
          | @cons e t es ts h _ =>
              have hmem := List.mem_cons_self (a := t) (l := ts)
              obtain ⟨leaf, hleaf⟩ := ih t hmem h (ht.child hmem)
                (he.child (List.mem_cons_self ..))
              exact ⟨leaf, .under hmem hleaf⟩
  | not t ih =>
      cases h with
      | not h =>
          obtain ⟨leaf, hleaf⟩ := ih h (ht.child (List.mem_singleton_self _))
            (he.child (List.mem_singleton_self _))
          exact ⟨leaf, leaf_within_not.2 hleaf⟩
  | rule leaf => exact ⟨leaf, .self⟩
  | named tag name => exact absurd (refers_named.2 rfl) (ht name)
  | inline tag t ih =>
      have hchild := ht.child (List.mem_singleton_self _)
      cases h with
      | named hname h =>
          obtain ⟨leaf, hleaf⟩ := ih h hchild (hlook _ _ hname)
          exact ⟨leaf, leaf_within_inline.2 hleaf⟩
      | inline h =>
          obtain ⟨leaf, hleaf⟩ := ih h hchild (he.child (List.mem_singleton_self _))
          exact ⟨leaf, leaf_within_inline.2 hleaf⟩

-- ============================================================== height

/-- An expansion is at least as high as the expression. -/
theorem Expands.height_le (h : Expands look e t) : e.height ≤ t.height := by
  induction t using induct generalizing e with
  | join c ts ih =>
      cases h with
      | @join _ es _ h =>
          have hle : heights es ≤ heights ts := by
            refine heights_le_iff.2 fun e he => ?_
            obtain ⟨t, ht, hexp⟩ := Pairs.of_mem_left h he
            exact Nat.le_trans (ih t ht hexp) (heights_le_iff.1 (Nat.le_refl _) t ht)
          rw [height, height]
          omega
  | not t ih =>
      cases h with
      | not h =>
          have hle := ih h
          rw [height, height]
          omega
  | rule leaf =>
      cases h
      exact Nat.le_refl _
  | named tag name =>
      cases h
      exact Nat.le_refl _
  | inline tag t ih =>
      cases h with
      | named hname h =>
          rw [height, height]
          omega
      | inline h =>
          have hle := ih h
          rw [height, height]
          omega

-- ==================================================== rewritten leaves

/-- The expansion of a rewritten expression is the rewritten expansion. -/
theorem Expands.map (f : ρ → σ) (h : Expands look e t) :
    Expands (fun name => (look name).map (Expr.map f)) (e.map f) (t.map f) := by
  induction t using induct generalizing e with
  | join c ts ih =>
      cases h with
      | join h =>
          rw [Expr.map, Expr.map, mapAll_eq, mapAll_eq]
          refine .join (List.forall₂_map_left_iff.2 (List.forall₂_map_right_iff.2 ?_))
          exact Pairs.imp_of_mem h fun e _ t ht hexp => ih t ht hexp
  | not t ih =>
      cases h with
      | not h => exact .not (ih h)
  | rule leaf =>
      cases h
      exact .rule _
  | named tag name =>
      cases h with
      | unknown hname => exact .unknown (by rw [hname]; rfl)
  | inline tag t ih =>
      cases h with
      | named hname h => exact .named (by rw [hname]; rfl) (ih h)
      | inline h => exact .inline (ih h)

end Verdict.Expr
