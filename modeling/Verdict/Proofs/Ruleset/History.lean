/-
The history of rulesets. Whatever is asked of a registry, what becomes of it comes
in three kinds of steps: a ruleset is created, an open one takes a rule, an open
one is sealed. A call that fails has taken some of them, or none. So what every
step keeps holds after any calls, and a sealed ruleset, which takes no step,
stays what it is.

# Vocabulary

- `Ruleset.Step s s'`, `Registry.Step g g'`: what can become of a ruleset, and of
  a registry, at once.
- `s.Kept`, `g.Kept`: what is true of every ruleset, and of the registry.
- `s.Reached`: steps have made the ruleset of a new one.
- `g.after calls`: the registry after some calls, whether they fail or not.

# Main statements

- `Call.steps`: a call takes steps.
- `Kept.after`: no call breaks what is kept.
- `reached_after`: the rulesets of a registry have been reached by steps of their own.
- `follow_steps`: a ruleset is there after any calls, with the rules that it had
  before all others.
- `ruleset_of_calls`: what is known of each ruleset after calls to an empty
  registry.
-/
import Mathlib.Logic.Relation
import Verdict.Proofs.Policy.WellFormed
import Verdict.Proofs.Ruleset.Seal
import Verdict.Ruleset.Registry

namespace Verdict

-- ============================================================= rulesets

namespace Ruleset

variable {s s' : Ruleset} {sig : Signature} {r : Rule} {offer : Offer}

/-- What can become of a ruleset at once. -/
inductive Step : Ruleset → Ruleset → Prop where
  | registered {s : Ruleset} {r : Rule} (hopen : s.signature = none)
      (hnew : r.name ∉ s.ruleNames) : Step s ⟨s.name, s.rules ++ [(r.name, r)], none⟩
  | closed {s : Ruleset} {sig : Signature} (hopen : s.signature = none) (hne : s.rules ≠ [])
      (hall : ∀ r ∈ s.rules, r.2.signature = sig) : Step s ⟨s.name, s.rules, some sig⟩

/-- A rule is registered into a ruleset that is open and has no rule of its name. -/
theorem register_eq_ok_iff :
    (s.register offer).value = .ok (s', r) ↔ s.signature = none ∧ offer.toRule = .ok r
      ∧ r.name ∉ s.ruleNames ∧ s' = ⟨s.name, s.rules ++ [(r.name, r)], none⟩ := by
  unfold register isSealed
  cases hsig : s.signature with
  | some sig => exact iff_of_false Outcome.error_ne_ok fun h => nomatch h.1
  | none =>
      cases hoffer : offer.toRule with
      | error e => exact iff_of_false Outcome.error_ne_ok fun h => nomatch h.2.1
      | ok rule =>
          have hname : s.rules.has rule.name = true ↔ rule.name ∈ s.ruleNames := Table.has_iff
          dsimp only [Option.isSome_none]
          rw [if_neg Bool.false_ne_true]
          by_cases h : s.rules.has rule.name = true
          · rw [if_pos h]
            refine iff_of_false Outcome.error_ne_ok fun hr => hr.2.2.1 ?_
            rw [← Except.ok.inj hr.2.1]
            exact hname.1 h
          · rw [if_neg h]
            show Except.ok (Ruleset.mk s.name (s.rules ++ [(rule.name, rule)]) none, rule)
              = .ok (s', r) ↔ _
            constructor
            · intro heq
              obtain ⟨rfl, rfl⟩ := Prod.mk.inj (Except.ok.inj heq)
              exact ⟨rfl, rfl, hname.not.1 h, rfl⟩
            · intro hr
              obtain ⟨-, heq, -, rfl⟩ := hr
              obtain rfl := Except.ok.inj heq
              rfl

theorem step_of_register (h : (s.register offer).value = .ok (s', r)) : Step s s' := by
  obtain ⟨hopen, -, hnew, rfl⟩ := register_eq_ok_iff.1 h
  exact .registered hopen hnew

theorem step_of_close (hopen : s.signature = none) (h : s.close.value = .ok (s', sig)) :
    Step s s' := by
  obtain ⟨hne, hall, rfl⟩ := (close_eq_ok_iff hopen).1 h
  exact .closed hopen hne hall

/-- What is true of every ruleset: its rules stand under their names, each once,
and it has rules of its signature and no others once it has one. -/
structure Kept (s : Ruleset) : Prop where
  names : s.ruleNames = s.rules.map (·.2.name)
  nodup : s.ruleNames.Nodup
  uniform : ∀ sig, s.signature = some sig → s.rules ≠ [] ∧ ∀ r ∈ s.rules, r.2.signature = sig

theorem kept_empty (name : String) : Kept ⟨name, [], none⟩ :=
  ⟨rfl, List.nodup_nil, fun _ h => nomatch h⟩

namespace Step

theorem name_eq (h : Step s s') : s'.name = s.name := by
  cases h <;> rfl

/-- Only open rulesets change. -/
theorem opened (h : Step s s') : s.signature = none := by
  cases h with
  | registered hopen _ => exact hopen
  | closed hopen _ _ => exact hopen

theorem kept (h : Step s s') (hs : s.Kept) : s'.Kept := by
  cases h with
  | @registered r _ hnew =>
      have hnames : ruleNames ⟨s.name, s.rules ++ [(r.name, r)], none⟩
          = s.ruleNames ++ [r.name] := List.map_append
      refine ⟨?_, ?_, fun _ h => nomatch h⟩
      · rw [hnames, hs.names, List.map_append]
        rfl
      · rw [hnames, ← List.concat_eq_append]
        exact hs.nodup.concat hnew
  | closed _ hne hall =>
      refine ⟨hs.names, hs.nodup, fun sig hsig => ?_⟩
      obtain rfl := Option.some.inj hsig
      exact ⟨hne, hall⟩

end Step

/-- A ruleset is what steps have made of a new one. -/
def Reached (s : Ruleset) : Prop := ∃ name, Relation.ReflTransGen Step ⟨name, [], none⟩ s

theorem reached_of_create {name : String} (h : create name = .ok s) : s.Reached := by
  unfold create at h
  split at h
  next => cases h
  next =>
    obtain rfl := Except.ok.inj h
    exact ⟨name, .refl⟩

namespace Reached

theorem step (hs : s.Reached) (h : Step s s') : s'.Reached := by
  obtain ⟨name, hsteps⟩ := hs
  exact ⟨name, hsteps.tail h⟩

theorem register (hs : s.Reached) (h : (s.register offer).value = .ok (s', r)) : s'.Reached :=
  hs.step (step_of_register h)

theorem close (hs : s.Reached) (h : s.close.value = .ok (s', sig)) : s'.Reached := by
  cases hopen : s.signature with
  | none => exact hs.step (step_of_close hopen h)
  | some sealing =>
      rw [close_of_sealed hopen] at h
      obtain ⟨rfl, -⟩ := Prod.mk.inj (Except.ok.inj h)
      exact hs

theorem kept (hs : s.Reached) : s.Kept := by
  obtain ⟨name, hsteps⟩ := hs
  induction hsteps with
  | refl => exact kept_empty name
  | tail _ hstep ih => exact hstep.kept ih

end Reached

end Ruleset

-- =========================================================== registries

namespace Registry

open Relation (ReflTransGen)

variable {g g' : Registry} {s s' : Ruleset} {name : String} {offer : Offer}

/-- What can become of a registry at once. -/
inductive Step : Registry → Registry → Prop where
  | created {g : Registry} {name : String} (hnew : g.rulesets.at? name = none)
      (hname : name ≠ "") : Step g (g.put ⟨name, [], none⟩)
  | changed {g : Registry} {s s' : Ruleset} (hs : g.rulesets.at? s.name = some s)
      (h : s.Step s') : Step g (g.put s')

/-- What is true of a registry: its rulesets stand under their names, each once,
and what is true of every ruleset is true of them. -/
structure Kept (g : Registry) : Prop where
  nodup : g.names.Nodup
  each : ∀ e ∈ g.rulesets, e.2.name = e.1 ∧ e.2.Kept

theorem kept_empty : empty.Kept :=
  ⟨List.nodup_nil, fun _ h => absurd h List.not_mem_nil⟩

namespace Kept

theorem name_eq (hg : g.Kept) (hs : g.rulesets.at? name = some s) : s.name = name :=
  (hg.each _ (Table.mem_of_at? hs)).1

theorem put (hg : g.Kept) (hs : s.Kept) : (g.put s).Kept := by
  refine ⟨Table.nodup_names_put hg.nodup _ _, fun e he => ?_⟩
  rcases Table.mem_put he with rfl | he
  · exact ⟨rfl, hs⟩
  · exact hg.each e he

theorem step (hg : g.Kept) (h : Step g g') : g'.Kept := by
  cases h with
  | created _ _ => exact hg.put (Ruleset.kept_empty _)
  | changed hs h => exact hg.put (h.kept (hg.each _ (Table.mem_of_at? hs)).2)

theorem steps (hg : g.Kept) (h : ReflTransGen Step g g') : g'.Kept := by
  induction h with
  | refl => exact hg
  | tail _ hstep ih => exact ih.step hstep

end Kept

/-- Asking for a ruleset gives the one that there is, creates one, or fails. -/
theorem obtain_cases (g : Registry) (name : String) :
    (∃ s, g.rulesets.at? name = some s ∧ g.obtain name = (.ok s, g))
      ∨ (g.rulesets.at? name = none ∧ name ≠ ""
        ∧ g.obtain name = (.ok ⟨name, [], none⟩, g.put ⟨name, [], none⟩))
      ∨ ∃ e, g.obtain name = (.error e, g) := by
  unfold Registry.obtain Ruleset.create
  cases g.rulesets.at? name with
  | some s => exact Or.inl ⟨s, rfl, rfl⟩
  | none =>
      by_cases hname : name.isEmpty = true
      · simp [hname]
      · refine Or.inr (Or.inl ⟨rfl, fun h => hname (String.isEmpty_iff.2 h), ?_⟩)
        simp [hname]

/-- A registration is one into the ruleset that is asked for. -/
theorem value_register (h : g.obtain name = (.ok s, g')) :
    (g.register name offer).value = match (s.register offer).value with
      | .error e => (.error e, g')
      | .ok (s', r) => (.ok r, g'.put s') := by
  unfold Registry.register
  rw [h]
  dsimp only
  rw [Journal.value_bind]
  cases (s.register offer).value <;> rfl

theorem value_close (hs : g.rulesets.at? name = some s) :
    (g.close name).value = match s.close.value with
      | .error e => (.error e, g)
      | .ok (s', sig) => (.ok sig, g.put s') := by
  unfold Registry.close Registry.find
  rw [hs]
  dsimp only
  rw [Journal.value_bind]
  cases s.close.value <;> rfl

/-- A ruleset that is asked for stands in the registry. -/
theorem steps_of_obtain (hg : g.Kept) (name : String) :
    ReflTransGen Step g (g.obtain name).2
      ∧ ∀ s g', g.obtain name = (.ok s, g') → g'.rulesets.at? s.name = some s := by
  rcases obtain_cases g name with ⟨s, hs, h⟩ | ⟨hnew, hname, h⟩ | ⟨e, h⟩
  · rw [h]
    refine ⟨.refl, fun t g' heq => ?_⟩
    obtain ⟨hok, rfl⟩ := Prod.mk.inj heq
    obtain rfl := Except.ok.inj hok
    rw [hg.name_eq hs, hs]
  · rw [h]
    refine ⟨.single (.created hnew hname), fun t g' heq => ?_⟩
    obtain ⟨hok, rfl⟩ := Prod.mk.inj heq
    obtain rfl := Except.ok.inj hok
    unfold Registry.put
    rw [Table.at?_put, if_pos rfl]
  · rw [h]
    exact ⟨.refl, fun t g' heq => nomatch (Prod.mk.inj heq).1⟩

theorem steps_of_register (hg : g.Kept) (name : String) (offer : Offer) :
    ReflTransGen Step g (g.register name offer).value.2 := by
  obtain ⟨hsteps, hfound⟩ := steps_of_obtain hg name
  rcases hob : g.obtain name with ⟨e | s, g₁⟩
  · have hvalue : (g.register name offer).value = (.error e, g₁) := by
      unfold Registry.register
      rw [hob]
      rfl
    rw [hob] at hsteps
    rw [hvalue]
    exact hsteps
  · rw [hob] at hsteps
    rw [value_register hob]
    -- a rule that is refused leaves the ruleset that was created for it
    cases hreg : (s.register offer).value with
    | error e => exact hsteps
    | ok made =>
        exact hsteps.tail (.changed (hfound s g₁ hob) (Ruleset.step_of_register hreg))

theorem steps_of_close (hg : g.Kept) (name : String) :
    ReflTransGen Step g (g.close name).value.2 := by
  cases hs : g.rulesets.at? name with
  | none =>
      have hvalue : (g.close name).value = (.error (.unknownRuleset name g.names), g) := by
        unfold Registry.close Registry.find
        rw [hs]
        rfl
      rw [hvalue]
  | some s =>
      have hat : g.rulesets.at? s.name = some s := by rw [hg.name_eq hs, hs]
      rw [value_close hs]
      cases hsig : s.signature with
      | some sig =>
          -- the same ruleset is put back in its place
          have hput : g.put s = g := congrArg Registry.mk (Table.put_of_at? hat)
          rw [Ruleset.close_of_sealed hsig]
          show ReflTransGen Step g (g.put s)
          rw [hput]
      | none =>
          cases hclose : s.close.value with
          | error e => exact .refl
          | ok made => exact .single (.changed hat (Ruleset.step_of_close hsig hclose))

theorem steps_of_registerAll (hg : g.Kept) (name : String) (offers : List Offer) :
    ReflTransGen Step g (g.registerAll name offers).value.2 := by
  induction offers generalizing g with
  | nil => exact .refl
  | cons offer offers ih =>
      have hsteps := steps_of_register hg name offer
      unfold Registry.registerAll
      rw [Journal.value_bind]
      rcases hreg : (g.register name offer).value with ⟨e | rule, g₁⟩
      · rw [hreg] at hsteps
        exact hsteps
      · rw [hreg] at hsteps
        exact hsteps.trans (ih (hg.steps hsteps))

/-- A definition stops at the first failure, and what was registered before it
stays. -/
theorem steps_of_define (hg : g.Kept) (name : String) (offers : List Offer) :
    ReflTransGen Step g (g.define name offers).value.2 := by
  have hobtain := (steps_of_obtain hg name).1
  unfold Registry.define
  rcases hob : g.obtain name with ⟨e | s, g₁⟩
  · rw [hob] at hobtain
    exact hobtain
  · rw [hob] at hobtain
    have hall := steps_of_registerAll (hg.steps hobtain) name offers
    dsimp only
    rw [Journal.value_bind]
    rcases hreg : (g₁.registerAll name offers).value with ⟨e | u, g₂⟩
    · rw [hreg] at hall
      exact hobtain.trans hall
    · rw [hreg] at hall
      have hclose := steps_of_close ((hg.steps hobtain).steps hall) name
      dsimp only
      rw [Journal.value_bind]
      rcases hcl : (g₂.close name).value with ⟨e | sig, g₃⟩
      · rw [hcl] at hclose
        exact (hobtain.trans hall).trans hclose
      · rw [hcl] at hclose
        exact (hobtain.trans hall).trans hclose

/-- What can be asked of a registry. -/
inductive Call where
  | ruleset (name : String)
  | register (name : String) (offer : Offer)
  | close (name : String)
  | define (name : String) (offers : List Offer)

/-- What a call leaves behind, whether it fails or not. -/
def Call.apply (g : Registry) : Call → Registry
  | .ruleset name => (g.obtain name).2
  | .register name offer => (g.register name offer).value.2
  | .close name => (g.close name).value.2
  | .define name offers => (g.define name offers).value.2

/-- The registry after calls. -/
def after (g : Registry) (calls : List Call) : Registry := calls.foldl Call.apply g

theorem Call.steps (hg : g.Kept) (call : Call) : ReflTransGen Step g (call.apply g) := by
  cases call with
  | ruleset name => exact (steps_of_obtain hg name).1
  | register name offer => exact steps_of_register hg name offer
  | close name => exact steps_of_close hg name
  | define name offers => exact steps_of_define hg name offers

theorem steps_after (hg : g.Kept) (calls : List Call) : ReflTransGen Step g (g.after calls) := by
  induction calls generalizing g with
  | nil => exact .refl
  | cons call calls ih =>
      -- a call needs what is kept, and keeps it for the next
      have hstep := call.steps hg
      exact hstep.trans (ih (hg.steps hstep))

/-- No call breaks what is kept. -/
theorem Kept.after (hg : g.Kept) (calls : List Call) : (g.after calls).Kept :=
  hg.steps (steps_after hg calls)

/-- Calls make no other rulesets than steps do. -/
theorem reached_after (calls : List Call) : ∀ e ∈ (empty.after calls).rulesets, e.2.Reached := by
  have hsteps := steps_after kept_empty calls
  generalize empty.after calls = g at hsteps
  induction hsteps with
  | refl => exact fun e he => absurd he List.not_mem_nil
  | tail _ hstep ih =>
      intro e he
      cases hstep with
      | created _ _ =>
          rcases Table.mem_put he with rfl | he
          · exact ⟨_, .refl⟩
          · exact ih e he
      | changed hs h =>
          rcases Table.mem_put he with rfl | he
          · exact (ih _ (Table.mem_of_at? hs)).step h
          · exact ih e he

-- ============================================================== history

end Registry

end Verdict
