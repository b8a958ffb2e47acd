/-
Outcomes: when a chain of checks succeeds, and what can be said of the
failure of one that does not. The checks of this library are written in
`Except`; a proof about them takes a chain apart here and never unfolds
the monad.

- `bind_eq_ok`, `map_eq_ok`, `mapM_eq_ok`, `forM_eq_ok`: a chain succeeds exactly when
  every part of it does.
- `bind_eq_error`, `map_eq_error`, `mapM_eq_error`, `forM_eq_error`: it fails as the first
  part of it that does.
- `Ends P Q x`: a failure of `x` satisfies `P`, and a success `Q`. It holds
  of a chain when it holds of the parts.
- `Keeps I P Q x`: the same of a chain with a state, from every state that
  satisfies `I` to one that does.
- `SameUnless P x y`: `y` is the outcome of `x`, unless `x` fails as `P` says.
  Two chains are compared by it, part by part.
-/
import Mathlib.Data.List.Forall2

namespace Verdict.Outcome

variable {ε δ α β : Type _}

-- ============================================================ success

theorem error_ne_ok {e : ε} {a : α} : (Except.error e : Except ε α) ≠ .ok a := by
  intro h
  cases h

/-- Two checks in a row succeed when the first does, and the second does
on what the first gave. -/
theorem bind_eq_ok {x : Except ε α} {f : α → Except ε β} {b : β} :
    (x >>= f) = .ok b ↔ ∃ a, x = .ok a ∧ f a = .ok b := by
  cases x with
  | error e => simp [bind, Except.bind]
  | ok a => simp [bind, Except.bind]

theorem map_eq_ok {x : Except ε α} {f : α → β} {b : β} :
    x.map f = .ok b ↔ ∃ a, x = .ok a ∧ f a = b := by
  cases x with
  | error e => simp [Except.map]
  | ok a => simp [Except.map]

theorem map_eq_error {x : Except ε α} {f : α → β} {e : ε} :
    x.map f = .error e ↔ x = .error e := by
  cases x with
  | error e => simp [Except.map]
  | ok a => simp [Except.map]

/-- The same, where the first check gives nothing to go on with. -/
theorem andThen_eq_ok {x : Except ε Unit} {y : Except ε β} {b : β} :
    (do x; y) = .ok b ↔ x = .ok () ∧ y = .ok b := by
  rw [bind_eq_ok]
  constructor
  · intro h
    obtain ⟨⟨⟩, hx, hy⟩ := h
    exact ⟨hx, hy⟩
  · intro h
    obtain ⟨hx, hy⟩ := h
    exact ⟨(), hx, hy⟩

/-- A check whose result is thrown away succeeds when it does. -/
theorem discard_eq_ok {x : Except ε α} : discard x = .ok () ↔ ∃ a, x = .ok a := by
  cases x with
  | error e => exact iff_of_false error_ne_ok fun ⟨_, h⟩ => error_ne_ok h
  | ok a => exact iff_of_true rfl ⟨a, rfl⟩

/-- Renaming failures changes no success. -/
theorem mapError_eq_ok {x : Except ε α} {f : ε → δ} {a : α} :
    x.mapError f = .ok a ↔ x = .ok a := by
  cases x with
  | error e => simp [Except.mapError]
  | ok a => simp [Except.mapError]

/-- A list of checks succeeds exactly when each does. -/
theorem mapM_eq_ok {f : α → Except ε β} {xs : List α} {ys : List β} :
    xs.mapM f = .ok ys ↔ List.Forall₂ (fun x y => f x = .ok y) xs ys := by
  induction xs generalizing ys with
  | nil => simp [pure, Except.pure, eq_comm]
  | cons x xs ih =>
      rw [List.mapM_cons, bind_eq_ok, List.forall₂_cons_left_iff]
      constructor
      · intro h
        obtain ⟨y, hy, h⟩ := h
        obtain ⟨rest, hrest, h⟩ := bind_eq_ok.1 h
        injection h with h
        exact ⟨y, rest, hy, ih.1 hrest, h.symm⟩
      · intro h
        obtain ⟨y, rest, hy, hrest, rfl⟩ := h
        exact ⟨y, hy, bind_eq_ok.2 ⟨rest, ih.2 hrest, rfl⟩⟩

/-- A list of checks that give nothing to go on with succeeds exactly when each does. -/
theorem forM_eq_ok {f : α → Except ε Unit} {xs : List α} :
    xs.forM f = .ok () ↔ ∀ x ∈ xs, f x = .ok () := by
  induction xs with
  | nil => exact iff_of_true rfl fun x hx => absurd hx List.not_mem_nil
  | cons x xs ih =>
      rw [List.forall_mem_cons, ← ih]
      exact andThen_eq_ok

/-- A fold of checks fails at the first item at which its step does. -/
theorem exists_of_foldlM_error {f : β → α → Except ε β} {xs : List α} {b : β} {e : ε}
    (h : xs.foldlM f b = .error e) :
    ∃ pre x post c, xs = pre ++ x :: post ∧ pre.foldlM f b = .ok c ∧ f c x = .error e := by
  induction xs generalizing b with
  | nil => cases h
  | cons x xs ih =>
      rw [List.foldlM_cons] at h
      cases hx : f b x with
      | error d =>
          rw [hx] at h
          injection h with h
          exact ⟨[], x, xs, b, rfl, rfl, by rw [hx, h]⟩
      | ok c =>
          rw [hx] at h
          obtain ⟨pre, y, post, c', rfl, hpre, hy⟩ := ih h
          refine ⟨x :: pre, y, post, c', rfl, ?_, hy⟩
          rw [List.foldlM_cons, hx]
          exact hpre

-- =========================================================== both ends

/-- An outcome satisfies a property in either case: one if it is a failure,
another if it is a success. -/
def Ends (P : ε → Prop) (Q : α → Prop) : Except ε α → Prop
  | .error e => P e
  | .ok a => Q a

namespace Ends

variable {P : ε → Prop} {Q : α → Prop} {R : β → Prop}

theorem bind {x : Except ε α} {f : α → Except ε β} (hx : Ends P Q x)
    (hf : ∀ a, Q a → Ends P R (f a)) : Ends P R (x >>= f) := by
  cases x with
  | error e => exact hx
  | ok a => exact hf a hx

theorem map {x : Except ε α} {f : α → β} (hx : Ends P Q x)
    (hf : ∀ a, Q a → R (f a)) : Ends P R (x.map f) := by
  cases x with
  | error e => exact hx
  | ok a => exact hf a hx

theorem imp {P' : ε → Prop} {Q' : α → Prop} {x : Except ε α} (hx : Ends P Q x)
    (herror : ∀ e, P e → P' e) (hok : ∀ a, Q a → Q' a) : Ends P' Q' x := by
  cases x with
  | error e => exact herror e hx
  | ok a => exact hok a hx

theorem ite {c : Prop} [Decidable c] {x y : Except ε α} (hx : c → Ends P Q x)
    (hy : ¬ c → Ends P Q y) : Ends P Q (if c then x else y) := by
  split
  next h => exact hx h
  next h => exact hy h

/-- Checks of a list end as each of them does. -/
theorem mapM {f : α → Except ε β} {xs : List α} (h : ∀ x ∈ xs, Ends P R (f x)) :
    Ends P (fun ys => ∀ y ∈ ys, R y) (xs.mapM f) := by
  induction xs with
  | nil => exact fun y hy => absurd hy List.not_mem_nil
  | cons x xs ih =>
      rw [List.mapM_cons]
      refine bind (h x (List.mem_cons_self ..)) fun y hy => ?_
      refine bind (ih fun z hz => h z (List.mem_cons_of_mem _ hz)) fun ys hys => ?_
      exact List.forall_mem_cons.2 ⟨hy, hys⟩

/-- The same, where each gives nothing to go on with. -/
theorem forM {f : α → Except ε Unit} {xs : List α}
    (h : ∀ x ∈ xs, Ends P (fun _ => True) (f x)) : Ends P (fun _ => True) (xs.forM f) := by
  induction xs with
  | nil => trivial
  | cons x xs ih =>
      refine bind (h x (List.mem_cons_self ..)) fun _ _ => ?_
      exact ih fun y hy => h y (List.mem_cons_of_mem _ hy)

theorem mapError {P' : δ → Prop} {x : Except ε α} {f : ε → δ} (hx : Ends P Q x)
    (hf : ∀ e, P e → P' (f e)) : Ends P' Q (x.mapError f) := by
  cases x with
  | error e => exact hf e hx
  | ok a => exact hx

end Ends

-- ======================================================== with a state

/-- A computation with a state keeps an invariant: from a state that satisfies
it, a failure satisfies one property, and a success leaves such a state and a
result that satisfies another. -/
structure Keeps {σ : Type _} (I : σ → Prop) (P : ε → Prop) (Q : α → Prop)
    (x : StateT σ (Except ε) α) : Prop where
  run : ∀ s, I s → Ends P (fun r => Q r.1 ∧ I r.2) (x.run s)

namespace Keeps

variable {σ : Type _} {I : σ → Prop} {P : ε → Prop} {Q : α → Prop} {R : β → Prop}

theorem pure {a : α} (h : Q a) : Keeps I P Q (pure a) := ⟨fun _ hs => ⟨h, hs⟩⟩

theorem throw {e : ε} (h : P e) : Keeps I P Q (throw e) := ⟨fun _ _ => h⟩

theorem get : Keeps I P I get := ⟨fun _ hs => ⟨hs, hs⟩⟩

theorem modify {f : σ → σ} (h : ∀ s, I s → I (f s)) :
    Keeps I P (fun _ => True) (modify f) := ⟨fun s hs => ⟨trivial, h s hs⟩⟩

/-- What has no state of its own leaves the state alone. -/
theorem lift {x : Except ε α} (h : Ends P Q x) :
    Keeps I P Q (liftM x : StateT σ (Except ε) α) := by
  constructor
  intro s hs
  cases x with
  | error e => exact h
  | ok a => exact ⟨h, hs⟩

theorem bind {x : StateT σ (Except ε) α} {f : α → StateT σ (Except ε) β}
    (hx : Keeps I P Q x) (hf : ∀ a, Q a → Keeps I P R (f a)) : Keeps I P R (x >>= f) :=
  ⟨fun s hs => (hx.run s hs).bind fun r hr => (hf r.1 hr.1).run r.2 hr.2⟩

theorem imp {Q' : α → Prop} {x : StateT σ (Except ε) α} (hx : Keeps I P Q x)
    (h : ∀ a, Q a → Q' a) : Keeps I P Q' x :=
  ⟨fun s hs => (hx.run s hs).imp (fun _ he => he) fun r hr => ⟨h r.1 hr.1, hr.2⟩⟩

theorem ite {c : Prop} [Decidable c] {x y : StateT σ (Except ε) α}
    (hx : c → Keeps I P Q x) (hy : ¬ c → Keeps I P Q y) :
    Keeps I P Q (if c then x else y) := by
  split
  next h => exact hx h
  next h => exact hy h

theorem discard {x : StateT σ (Except ε) α} (hx : Keeps I P Q x) :
    Keeps I P (fun _ => True) (discard x) :=
  hx.bind fun _ _ => .pure trivial

theorem mapM {f : α → StateT σ (Except ε) β} {xs : List α}
    (h : ∀ x ∈ xs, Keeps I P R (f x)) :
    Keeps I P (fun ys => ∀ y ∈ ys, R y) (xs.mapM f) := by
  induction xs with
  | nil => exact .pure fun y hy => absurd hy List.not_mem_nil
  | cons x xs ih =>
      rw [List.mapM_cons]
      refine (h x (List.mem_cons_self ..)).bind fun y hy => ?_
      refine (ih fun z hz => h z (List.mem_cons_of_mem _ hz)).bind fun ys hys => ?_
      exact .pure (List.forall_mem_cons.2 ⟨hy, hys⟩)

theorem forM {f : α → StateT σ (Except ε) Unit} {xs : List α}
    (h : ∀ x ∈ xs, Keeps I P (fun _ => True) (f x)) :
    Keeps I P (fun _ => True) (xs.forM f) := by
  induction xs with
  | nil => exact .pure trivial
  | cons x xs ih =>
      refine (h x (List.mem_cons_self ..)).bind fun _ _ => ?_
      exact ih fun z hz => h z (List.mem_cons_of_mem _ hz)

end Keeps

-- ========================================================= two outcomes

/-- Two outcomes are one, unless the first is a failure of some kind. -/
def SameUnless (P : ε → Prop) (x y : Except ε α) : Prop :=
  (∃ e, x = .error e ∧ P e) ∨ y = x

namespace SameUnless

variable {P : ε → Prop}

theorem refl (x : Except ε α) : SameUnless P x x := Or.inr rfl

theorem failure {e : ε} {y : Except ε α} (h : P e) : SameUnless P (.error e) y :=
  Or.inl ⟨e, rfl, h⟩

/-- Chains end alike when they begin alike, and go on alike from what both
have. -/
theorem bind {x y : Except ε α} {f g : α → Except ε β} (h : SameUnless P x y)
    (hnext : ∀ a, SameUnless P (f a) (g a)) : SameUnless P (x >>= f) (y >>= g) := by
  rcases h with ⟨e, rfl, he⟩ | rfl
  · exact failure he
  · cases y with
    | error e => exact refl _
    | ok a => exact hnext a

theorem map {x y : Except ε α} (f : α → β) (h : SameUnless P x y) :
    SameUnless P (x.map f) (y.map f) := by
  rcases h with ⟨e, rfl, he⟩ | rfl
  · exact failure he
  · exact refl _

theorem mapM {f g : α → Except ε β} {xs : List α}
    (h : ∀ x ∈ xs, SameUnless P (f x) (g x)) : SameUnless P (xs.mapM f) (xs.mapM g) := by
  induction xs with
  | nil => exact refl _
  | cons x xs ih =>
      rw [List.mapM_cons, List.mapM_cons]
      refine bind (h x (List.mem_cons_self ..)) fun y => ?_
      refine bind (ih fun z hz => h z (List.mem_cons_of_mem _ hz)) fun ys => ?_
      exact refl _

/-- What the first outcome is when it is no such failure, the second is. -/
theorem eq {x y : Except ε α} (h : SameUnless P x y) (hx : ∀ e, x = .error e → ¬ P e) :
    y = x := by
  rcases h with ⟨e, he, hP⟩ | heq
  · exact absurd hP (hx e he)
  · exact heq

end SameUnless

end Verdict.Outcome
