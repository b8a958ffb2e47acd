/-
What evaluating an expression means, by rules instead of levels. The
rules are those of the library's expressions: a leaf counts as its rule's
answer does, `not` inverts, a connective goes through its children from
left to right and ends with the first that decides it, a reference stands
for what it refers to, and the first error ends everything.

`Evaluates scope e s o s' d` says that evaluating `e` from the run `s`
ends with the outcome `o` and the run `s'`, and that `d` nodes stood
inside one another where it went deepest.

# Main statements

- `evaluate_of_evaluates`: with `d` levels or more the evaluator gives the
  outcome that the rules give, so the rules give one outcome at most
  (`Evaluates.unique`).
- `Expands.evaluates`: an expression and its expansion evaluate alike,
  with no more nodes inside one another than the expansion is high. Hence
  what has an expansion has an outcome.
- `Evaluates.answers`: in a closed expression with bound leaves the outcome
  is a truth value or the fault of one of its rules.
-/
import Verdict.Expr.Evaluate
import Verdict.Proofs.Expr.Expansion

namespace Verdict

/-- The truth value of a child that decides a connective. -/
def Connective.decisive : Connective → Bool
  | .all => false
  | .any => true

/-- The run after a rule was given the context and left `ctx` behind: the
rule is recorded if it was given inputs that it takes. -/
def Run.after (s : Run) (i : Instance) (ctx : Context) : Run :=
  ⟨ctx, if i.fits s.context then i :: s.calls else s.calls⟩

namespace Expr

-- ============================================================= the rules

/-- Evaluating an expression ends with an outcome and a run, and goes so
many nodes deep. -/
inductive Evaluates (scope : Scope) :
    Expr BoundRef → Run → Except EvaluationError Bool → Run → Nat → Prop where
  | unbound {r : BoundRef} {s : Run} (h : r.bound = none) :
      Evaluates scope (.rule r) s (.error (.unbound r.ref.rule)) s 1
  | answer {r : BoundRef} {s : Run} {i : Instance} {a : Input} {ctx : Context}
      (h : r.bound = some i) (ha : i.evaluate s.context = (.ok a, ctx)) :
      Evaluates scope (.rule r) s (.ok a.truthy) (s.after i ctx) 1
  | fault {r : BoundRef} {s : Run} {i : Instance} {f : Fault} {ctx : Context}
      (h : r.bound = some i) (hf : i.evaluate s.context = (.error f, ctx)) :
      Evaluates scope (.rule r) s (.error (.fault f)) (s.after i ctx) 1
  | not {e : Expr BoundRef} {s s' : Run} {b : Bool} {d : Nat}
      (h : Evaluates scope e s (.ok b) s' d) :
      Evaluates scope (.not e) s (.ok !b) s' (d + 1)
  | notError {e : Expr BoundRef} {s s' : Run} {err : EvaluationError} {d : Nat}
      (h : Evaluates scope e s (.error err) s' d) :
      Evaluates scope (.not e) s (.error err) s' (d + 1)
  /-- No child decided the connective. -/
  | joinNil {c : Connective} {s : Run} :
      Evaluates scope (.join c []) s (.ok !c.decisive) s 1
  /-- The first child decides it; the others are not looked at. -/
  | joinStop {c : Connective} {e : Expr BoundRef} {rest : List (Expr BoundRef)}
      {s s' : Run} {d : Nat} (h : Evaluates scope e s (.ok c.decisive) s' d) :
      Evaluates scope (.join c (e :: rest)) s (.ok c.decisive) s' (d + 1)
  /-- The first child does not, and the others follow. -/
  | joinNext {c : Connective} {e : Expr BoundRef} {rest : List (Expr BoundRef)}
      {s s' s'' : Run} {o : Except EvaluationError Bool} {d d' : Nat}
      (h : Evaluates scope e s (.ok !c.decisive) s' d)
      (hrest : Evaluates scope (.join c rest) s' o s'' d') :
      Evaluates scope (.join c (e :: rest)) s o s'' (max (d + 1) d')
  | joinError {c : Connective} {e : Expr BoundRef} {rest : List (Expr BoundRef)}
      {s s' : Run} {err : EvaluationError} {d : Nat}
      (h : Evaluates scope e s (.error err) s' d) :
      Evaluates scope (.join c (e :: rest)) s (.error err) s' (d + 1)
  | named {tag name : String} {e : Expr BoundRef} {s s' : Run}
      {o : Except EvaluationError Bool} {d : Nat} (hname : scope name = .ok e)
      (h : Evaluates scope e s o s' d) :
      Evaluates scope (.named tag name) s o s' (d + 1)
  | unknown {tag name : String} {s : Run} {err : EvaluationError}
      (hname : scope name = .error err) :
      Evaluates scope (.named tag name) s (.error err) s 1
  | inline {tag : String} {e : Expr BoundRef} {s s' : Run}
      {o : Except EvaluationError Bool} {d : Nat} (h : Evaluates scope e s o s' d) :
      Evaluates scope (.inline tag e) s o s' (d + 1)

variable {scope : Scope} {e t : Expr BoundRef} {s s' : Run}
  {o : Except EvaluationError Bool} {d : Nat}

-- ====================================================== one level at a time

/-- A part of an evaluation that goes on with what the part before it
gave, and does not where that one failed. -/
theorem eval_bind {α β : Type} (x : Eval α) (f : α → Eval β) (s : Run) :
    (x >>= f) s = match x s with
      | (.ok a, s') => f a s'
      | (.error err, s') => (.error err, s') := by
  show (match x s with | (r, s') => ExceptT.bindCont f r s') = _
  rcases x s with ⟨_ | a, s'⟩
  · rfl
  · rfl

/-- A leaf answers as its rule does. -/
theorem evaluate_bound {r : BoundRef} {i : Instance} (h : r.bound = some i) (n : Nat) :
    evaluate scope (n + 1) (.rule r) s = match i.evaluate s.context with
      | (.ok a, ctx) => (.ok a.truthy, s.after i ctx)
      | (.error f, ctx) => (.error (.fault f), s.after i ctx) := by
  show BoundRef.evaluate _ _ = _
  unfold BoundRef.evaluate
  rw [h]
  rfl

theorem evaluate_not (n : Nat) :
    evaluate scope (n + 1) (.not e) s = match evaluate scope n e s with
      | (.ok b, s') => (.ok !b, s')
      | (.error err, s') => (.error err, s') := by
  rw [evaluate, eval_bind]
  rcases evaluate scope n e s with ⟨_ | b, s'⟩
  · rfl
  · rfl

theorem evaluate_nil (c : Connective) (n : Nat) :
    evaluate scope (n + 1) (.join c []) s = (.ok !c.decisive, s) := by
  cases c <;> rfl

/-- A connective takes one child at a time, and the children that follow
as a connective of their own. -/
theorem evaluate_cons (c : Connective) (rest : List (Expr BoundRef)) (n : Nat) :
    evaluate scope (n + 1) (.join c (e :: rest)) s = match evaluate scope n e s with
      | (.ok b, s') =>
          if b = c.decisive then (.ok b, s')
          else evaluate scope (n + 1) (.join c rest) s'
      | (.error err, s') => (.error err, s') := by
  cases c with
  | all =>
      rw [evaluate, allTrue, eval_bind]
      rcases evaluate scope n e s with ⟨_ | b, s'⟩
      · rfl
      · cases b <;> rfl
  | any =>
      rw [evaluate, anyTrue, eval_bind]
      rcases evaluate scope n e s with ⟨_ | b, s'⟩
      · rfl
      · cases b <;> rfl

theorem evaluate_named (tag name : String) (n : Nat) :
    evaluate scope (n + 1) (.named tag name) s = match scope name with
      | .ok e => evaluate scope n e s
      | .error err => (.error err, s) := by
  rw [evaluate]
  cases scope name <;> rfl

-- ============================================ the evaluator and the rules

/-- What holds one level above every level from `d` on holds from `d + 1` on. -/
theorem forall_above {P : Nat → Prop} (h : ∀ n, d ≤ n → P (n + 1)) :
    ∀ n, d + 1 ≤ n → P n := by
  intro n hn
  cases n with
  | zero => cases hn
  | succ n => exact h n (Nat.le_of_succ_le_succ hn)

/-- With levels enough the evaluator gives what the rules give. -/
theorem evaluate_of_evaluates (h : Evaluates scope e s o s' d) :
    ∀ n, d ≤ n → evaluate scope n e s = (o, s') := by
  induction h with
  | unbound hr =>
      refine forall_above fun n _ => ?_
      show BoundRef.evaluate _ _ = _
      unfold BoundRef.evaluate
      rw [hr]
  | answer hr ha =>
      refine forall_above fun n _ => ?_
      rw [evaluate_bound hr, ha]
  | fault hr hf =>
      refine forall_above fun n _ => ?_
      rw [evaluate_bound hr, hf]
  | not _ ih =>
      refine forall_above fun n hn => ?_
      rw [evaluate_not, ih n hn]
  | notError _ ih =>
      refine forall_above fun n hn => ?_
      rw [evaluate_not, ih n hn]
  | joinNil =>
      refine forall_above fun n _ => ?_
      exact evaluate_nil _ n
  | joinStop _ ih =>
      refine forall_above fun n hn => ?_
      rw [evaluate_cons, ih n hn]
      exact if_pos rfl
  | @joinNext c _ _ _ _ _ _ d d' _ _ ih ihrest =>
      intro n hn
      have hhead : d + 1 ≤ n := Nat.le_trans (Nat.le_max_left ..) hn
      have hrest := ihrest n (Nat.le_trans (Nat.le_max_right ..) hn)
      have hne : (!c.decisive) ≠ c.decisive := by cases c <;> decide
      obtain ⟨n, rfl⟩ := Nat.exists_eq_add_of_le' (Nat.le_of_add_left_le hhead)
      rw [evaluate_cons, ih n (Nat.le_of_succ_le_succ hhead)]
      exact (if_neg hne).trans hrest
  | joinError _ ih =>
      refine forall_above fun n hn => ?_
      rw [evaluate_cons, ih n hn]
  | named hname _ ih =>
      refine forall_above fun n hn => ?_
      rw [evaluate_named, hname]
      exact ih n hn
  | unknown hname =>
      refine forall_above fun n _ => ?_
      rw [evaluate_named, hname]
  | inline _ ih =>
      refine forall_above fun n hn => ?_
      rw [evaluate]
      exact ih n hn

/-- The rules give one outcome at most. -/
theorem Evaluates.unique {o' : Except EvaluationError Bool} {s'' : Run} {d' : Nat}
    (h : Evaluates scope e s o s' d) (h' : Evaluates scope e s o' s'' d') :
    o = o' ∧ s' = s'' := by
  have heq := evaluate_of_evaluates h (max d d') (Nat.le_max_left ..)
  rw [evaluate_of_evaluates h' (max d d') (Nat.le_max_right ..)] at heq
  injection heq with ho hs
  exact ⟨ho.symm, hs.symm⟩

-- ============================================================ expansions

/-- What stands in a connective without its first child stands in the
connective. -/
theorem within_rest {c : Connective} {leaf : Expr BoundRef} {rest : List (Expr BoundRef)}
    (hleaf : leaf.IsLeaf) (h : Within leaf (.join c rest)) :
    Within leaf (.join c (e :: rest)) := by
  obtain ⟨child, hchild, h⟩ := (within_join hleaf).1 h
  exact .under (List.mem_cons_of_mem _ hchild) h

variable {look : String → Option (Expr BoundRef)}

/-- An expression evaluates as its expansion does, if that names nothing:
to the same outcome, after the same rules, and no deeper than the expansion
is high. The expansion evaluates alike in every scope. -/
theorem Expands.evaluates (hscope : ∀ name d, look name = some d → scope name = .ok d)
    (h : Expands look e t) (ht : t.Closed) :
    ∀ s, ∃ o s' d, d ≤ t.height ∧ Evaluates scope e s o s' d
      ∧ ∀ other, Evaluates other t s o s' d := by
  induction t using induct generalizing e with
  | join c ts ih =>
      cases h with
      | @join _ es _ h =>
          have hts : ∀ t ∈ ts, t.Closed := fun t ht' => ht.child ht'
          clear ht
          -- what follows a child is a connective again: induction on the children
          induction h with
          | nil => exact fun s => ⟨_, s, 1, height_pos _, .joinNil, fun _ => .joinNil⟩
          | @cons e t es ts het _ ihrest =>
              intro s
              have hhead := List.mem_cons_self (a := t) (l := ts)
              obtain ⟨o, s', d, hd, he, ht⟩ := ih t hhead het (hts t hhead) s
              have hle : d + 1 ≤ height (.join c (t :: ts)) := by
                rw [height, heights]
                omega
              rcases o with err | b
              · exact ⟨_, s', d + 1, hle, .joinError he, fun other => .joinError (ht other)⟩
              · by_cases hb : b = c.decisive
                · subst hb
                  exact ⟨_, s', d + 1, hle, .joinStop he, fun other => .joinStop (ht other)⟩
                · have hb : b = !c.decisive := Bool.eq_not.2 hb
                  subst hb
                  obtain ⟨o, s'', d', hd', hes, hts⟩ := ihrest
                    (fun t ht => ih t (List.mem_cons_of_mem _ ht))
                    (fun t ht => hts t (List.mem_cons_of_mem _ ht)) s'
                  refine ⟨o, s'', max (d + 1) d', ?_, .joinNext he hes,
                    fun other => .joinNext (ht other) (hts other)⟩
                  rw [height, heights] at *
                  omega
  | not t ih =>
      cases h with
      | not h =>
          intro s
          obtain ⟨o, s', d, hd, he, ht⟩ := ih h (ht.child (List.mem_singleton_self _)) s
          have hle : d + 1 ≤ height (.not t) := by
            rw [height]
            omega
          rcases o with err | b
          · exact ⟨_, s', d + 1, hle, .notError he, fun other => .notError (ht other)⟩
          · exact ⟨_, s', d + 1, hle, .not he, fun other => .not (ht other)⟩
  | rule r =>
      cases h
      intro s
      rcases hr : r.bound with _ | i
      · exact ⟨_, s, 1, Nat.le_refl _, .unbound hr, fun _ => .unbound hr⟩
      · rcases ha : i.evaluate s.context with ⟨f | a, ctx⟩
        · exact ⟨_, _, 1, Nat.le_refl _, .fault hr ha, fun _ => .fault hr ha⟩
        · exact ⟨_, _, 1, Nat.le_refl _, .answer hr ha, fun _ => .answer hr ha⟩
  | named tag name => exact absurd (refers_named.2 rfl) (ht name)
  | inline tag t ih =>
      intro s
      have hchild := ht.child (List.mem_singleton_self _)
      cases h with
      | named hname h =>
          obtain ⟨o, s', d, hd, he, ht⟩ := ih h hchild s
          refine ⟨o, s', d + 1, ?_, .named (hscope _ _ hname) he,
            fun other => .inline (ht other)⟩
          rw [height]
          omega
      | inline h =>
          obtain ⟨o, s', d, hd, he, ht⟩ := ih h hchild s
          refine ⟨o, s', d + 1, ?_, .inline he, fun other => .inline (ht other)⟩
          rw [height]
          omega

/-- An outcome that no one but a rule of the expression can spoil: a truth
value, or the fault of a rule with which the evaluation ended. -/
def Answers (t : Expr BoundRef) (o : Except EvaluationError Bool) (s' : Run) : Prop :=
  (∃ b, o = .ok b) ∨ ∃ r i ctx f, Within (.rule r) t ∧ r.bound = some i
    ∧ i.evaluate ctx = (.error f, s'.context) ∧ o = .error (.fault f)

theorem Answers.mono {t t' : Expr BoundRef} (h : Answers t o s')
    (hsub : ∀ r, Within (.rule r) t → Within (.rule r) t') : Answers t' o s' := by
  rcases h with hb | ⟨r, i, ctx, f, hr, hfault⟩
  · exact Or.inl hb
  · exact Or.inr ⟨r, i, ctx, f, hsub r hr, hfault⟩

/-- Where nothing is named and every leaf is bound, the outcome is a truth
value or the fault of one of the rules. -/
theorem Evaluates.answers (h : Evaluates scope t s o s' d) (ht : t.Closed)
    (hbound : ∀ r, Within (.rule r) t → ∃ i, r.bound = some i) : Answers t o s' := by
  have hdown : ∀ {t child : Expr BoundRef} {o s'}, child ∈ t.children →
      (child.Closed → (∀ r, Within (.rule r) child → ∃ i, r.bound = some i) →
        Answers child o s') →
      t.Closed → (∀ r, Within (.rule r) t → ∃ i, r.bound = some i) → Answers t o s' := by
    intro t child o s' hchild ih ht hbound
    refine (ih (ht.child hchild) fun r hr => hbound r (.under hchild hr)).mono ?_
    exact fun r hr => .under hchild hr
  induction h with
  | unbound hr =>
      obtain ⟨i, hi⟩ := hbound _ .self
      rw [hr] at hi
      cases hi
  | answer _ _ => exact Or.inl ⟨_, rfl⟩
  | fault hr hf => exact Or.inr ⟨_, _, _, _, .self, hr, hf, rfl⟩
  | not _ _ => exact Or.inl ⟨_, rfl⟩
  | notError _ ih => exact hdown (List.mem_cons_self ..) ih ht hbound
  | joinNil => exact Or.inl ⟨_, rfl⟩
  | joinStop _ _ => exact Or.inl ⟨_, rfl⟩
  | joinNext _ _ _ ih =>
      refine (ih ?_ ?_).mono fun r hr => within_rest trivial hr
      · intro name hname
        obtain ⟨tag, hw⟩ := hname
        exact ht name ⟨tag, within_rest trivial hw⟩
      · intro r hr
        exact hbound r (within_rest trivial hr)
  | joinError _ ih => exact hdown (List.mem_cons_self ..) ih ht hbound
  | named _ _ _ => exact absurd (refers_named.2 rfl) (ht _)
  | unknown _ => exact absurd (refers_named.2 rfl) (ht _)
  | inline _ ih => exact hdown (List.mem_cons_self ..) ih ht hbound

end Expr

end Verdict
