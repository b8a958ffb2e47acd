/-
Lists side by side: what holds of the items in one place of two lists.
The children of a node are read, expanded and checked in order, so most
facts about a connective are facts about two lists of one length. Beside them
stands a test for a list of one item.
-/
import Mathlib.Data.List.Forall2
import Mathlib.Data.List.Nodup

namespace Verdict.Pairs

variable {α β γ : Type _} {R S : α → β → Prop} {xs : List α} {ys : List β}

/-- An item on the left has its partner on the right. -/
theorem of_mem_left (h : List.Forall₂ R xs ys) {x : α} (hx : x ∈ xs) :
    ∃ y ∈ ys, R x y := by
  induction h with
  | nil => cases hx
  | cons hxy _ ih =>
      rcases List.mem_cons.1 hx with rfl | hx
      · exact ⟨_, List.mem_cons_self .., hxy⟩
      · obtain ⟨y, hy, h⟩ := ih hx
        exact ⟨y, List.mem_cons_of_mem _ hy, h⟩

/-- An item on the right has its partner on the left. -/
theorem of_mem_right (h : List.Forall₂ R xs ys) {y : β} (hy : y ∈ ys) :
    ∃ x ∈ xs, R x y := by
  obtain ⟨x, hx, h⟩ := of_mem_left h.flip hy
  exact ⟨x, hx, h⟩

/-- One relation follows from another place by place. -/
theorem imp_of_mem (h : List.Forall₂ R xs ys)
    (himp : ∀ x ∈ xs, ∀ y ∈ ys, R x y → S x y) : List.Forall₂ S xs ys := by
  induction h with
  | nil => exact .nil
  | cons hxy _ ih =>
      refine .cons (himp _ (List.mem_cons_self ..) _ (List.mem_cons_self ..) hxy) ?_
      exact ih fun x hx y hy =>
        himp x (List.mem_cons_of_mem _ hx) y (List.mem_cons_of_mem _ hy)

/-- Partners found one by one make a list of partners. -/
theorem exists_of_forall (h : ∀ x ∈ xs, ∃ y, R x y) : ∃ ys, List.Forall₂ R xs ys := by
  induction xs with
  | nil => exact ⟨[], .nil⟩
  | cons x xs ih =>
      obtain ⟨y, hy⟩ := h x (List.mem_cons_self ..)
      obtain ⟨ys, hys⟩ := ih fun z hz => h z (List.mem_cons_of_mem _ hz)
      exact ⟨y :: ys, .cons hy hys⟩

/-- Where the partner on the right settles its partner in either relation,
both lists of partners are one. -/
theorem unique {ys' : List β} (h : List.Forall₂ R xs ys) (h' : List.Forall₂ S xs ys')
    (huniq : ∀ y ∈ ys, ∀ x y', R x y → S x y' → y = y') : ys = ys' := by
  induction h generalizing ys' with
  | nil =>
      cases h'
      rfl
  | cons hxy _ ih =>
      cases h' with
      | cons hxy' h' =>
          rw [huniq _ (List.mem_cons_self ..) _ _ hxy hxy',
            ih h' fun y hy => huniq y (List.mem_cons_of_mem _ hy)]

/-- Partners of partners: a list between two others is found where each pair
has an item between it. -/
theorem comp_iff {T : β → γ → Prop} {zs : List γ} :
    (∃ ys, List.Forall₂ R xs ys ∧ List.Forall₂ T ys zs) ↔
      List.Forall₂ (fun x z => ∃ y, R x y ∧ T y z) xs zs := by
  constructor
  · intro h
    obtain ⟨ys, hxy, hyz⟩ := h
    induction hxy generalizing zs with
    | nil =>
        cases hyz
        exact .nil
    | cons hxy _ ih =>
        cases hyz with
        | cons hyz hrest => exact .cons ⟨_, hxy, hyz⟩ (ih hrest)
  · intro h
    induction h with
    | nil => exact ⟨[], .nil, .nil⟩
    | cons h _ ih =>
        obtain ⟨y, hxy, hyz⟩ := h
        obtain ⟨ys, hxs, hzs⟩ := ih
        exact ⟨y :: ys, .cons hxy hxs, .cons hyz hzs⟩

/-- Where partners agree on something both lists list it alike. -/
theorem map_eq {f : α → γ} {g : β → γ} (h : List.Forall₂ R xs ys)
    (heq : ∀ x y, R x y → f x = g y) : xs.map f = ys.map g := by
  induction h with
  | nil => rfl
  | cons hxy _ ih => rw [List.map_cons, List.map_cons, heq _ _ hxy, ih]

/-- A list without repetitions has one item exactly where one thing, and no
other, stands in it. -/
theorem eq_singleton_iff {x : α} (h : xs.Nodup) : xs = [x] ↔ ∀ y, y ∈ xs ↔ y = x := by
  constructor
  · intro heq y
    rw [heq, List.mem_singleton]
  · intro hmem
    refine List.perm_singleton.1 ((List.perm_ext_iff_of_nodup h ?_).2 fun y => ?_)
    · exact List.nodup_singleton x
    · rw [hmem, List.mem_singleton]

end Verdict.Pairs
