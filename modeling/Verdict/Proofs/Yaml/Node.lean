/-
What reading nodes can say of the tokens. The reader passes over tokens and
never makes one, so the failure of a tag that it ends in is one that a token
tells of.

# Vocabulary

- `Told ts f`: the failure `f` is one of a tag only if one of the tokens tells
  of it.
- `Faithful ts x`: a part of the reader that is left with some of the tokens
  fails as one of them tells, or leaves some of them.
- `Reads ts n`: all parts of the reader that call each other are faithful with
  fuel for `n` calls.

# Main statements

- `Reads.step`, `reads`: one call more, and by induction any number of them.
- `told_of_error`: what tokens that describe no node fail with is `Told`.
-/
import Verdict.Proofs.Outcome
import Verdict.Yaml.Node.Reader

namespace Verdict.Yaml

open Outcome

/-- A failure is one of a tag only where a token tells of it. -/
def Told (ts : List Token) (f : Failure) : Prop :=
  ∀ g, f = .tag g → .broken (.tag g) ∈ ts

variable {ts : List Token}

theorem told_malformed : Told ts .malformed := nofun

theorem told_tooDeep : Told ts .tooDeep := nofun

namespace Read

/-- A part of the reader fails as one of the tokens tells, and what it leaves is
among them. -/
def Faithful (ts : List Token) {α : Type} (x : Read α) : Prop :=
  Keeps (fun s => s.tokens ⊆ ts) (Told ts) (fun _ => True) x

namespace Faithful

variable {α β : Type}

theorem pure (a : α) : Faithful ts (pure a) := Keeps.pure trivial

theorem malformed : Faithful ts (throw .malformed : Read α) := Keeps.throw told_malformed

theorem get : Faithful ts get := Keeps.get.imp fun _ _ => trivial

/-- A change of anything but the tokens. -/
theorem modify {f : Unread → Unread} (h : ∀ s, (f s).tokens = s.tokens) :
    Faithful ts (modify f) :=
  Keeps.modify fun s hs => (h s).symm ▸ hs

theorem bind {x : Read α} {f : α → Read β} (hx : Faithful ts x)
    (hf : ∀ a, Faithful ts (f a)) : Faithful ts (x >>= f) :=
  Keeps.bind hx fun a _ => hf a

theorem ite {c : Prop} [Decidable c] {x y : Read α} (hx : Faithful ts x)
    (hy : Faithful ts y) : Faithful ts (if c then x else y) :=
  Keeps.ite (fun _ => hx) fun _ => hy

end Faithful

-- ============================================================= tokens

/-- The next token is passed on, unless it is the one that tells of a failure. -/
theorem peek_faithful : Faithful ts peek := by
  refine Keeps.bind Keeps.get fun s hs => ?_
  split
  · exact .pure trivial
  next failure rest heq =>
    refine .throw fun g hg => hs ?_
    rw [heq, hg]
    exact List.mem_cons_self ..
  · exact .pure trivial

theorem skip_faithful : Faithful ts skip :=
  Keeps.modify fun _ hs => fun _ ht => hs (List.mem_of_mem_drop ht)

theorem skipIf_faithful (t : Token) : Faithful ts (skipIf t) :=
  peek_faithful.bind fun _ => .ite (skip_faithful.bind fun _ => .pure _) (.pure _)

theorem atOneOf_faithful (follow : List Token) : Faithful ts (atOneOf follow) :=
  peek_faithful.bind fun _ => .pure _

-- ========================================================= properties

theorem addressOf_faithful (handle : Option String) (suffix : String) :
    Faithful ts (addressOf handle suffix) := by
  unfold addressOf
  split
  · exact .pure _
  · refine Faithful.get.bind fun s => ?_
    split
    · exact .pure _
    · exact .malformed

theorem properties_faithful : Faithful ts properties := by
  refine peek_faithful.bind fun t => ?_
  split
  next name =>
    refine skip_faithful.bind fun _ => peek_faithful.bind fun t => ?_
    split
    · exact skip_faithful.bind fun _ => (addressOf_faithful ..).bind fun _ => .pure _
    · exact .pure _
  next handle suffix =>
    have hfinish : ∀ anchor : Option String, Faithful ts (do
        let anchor ← pure anchor
        pure (Properties.mk anchor (some (← addressOf handle suffix)))) :=
      fun _ => (Faithful.pure _).bind fun _ => (addressOf_faithful ..).bind fun _ => .pure _
    refine skip_faithful.bind fun _ => peek_faithful.bind fun t => ?_
    split
    · exact skip_faithful.bind fun _ => hfinish _
    · exact hfinish _
  next => exact .pure _

theorem aliased_faithful (name : String) : Faithful ts (aliased name) := by
  refine Faithful.get.bind fun s => ?_
  split
  · exact .pure _
  · exact .malformed

-- ================================================== opening and closing

theorem checkAnchor_faithful (anchor : Option String) : Faithful ts (checkAnchor anchor) := by
  unfold checkAnchor
  split
  · exact Faithful.get.bind fun s => .ite .malformed (.pure _)
  · exact .pure _

theorem opening_faithful (anchor : Option String) (kind : Kind) :
    Faithful ts (opening anchor kind) := by
  refine Faithful.get.bind fun _ => Faithful.bind (.modify fun _ => ?_) fun _ => .pure _
  rfl

theorem closing_faithful (n : Nat) (content : Content) : Faithful ts (closing n content) := by
  refine Faithful.bind (.modify fun _ => ?_) fun _ => .pure _
  rfl

theorem leaf_faithful (anchor : Option String) (kind : Kind) (text : List Char) :
    Faithful ts (leaf anchor kind text) :=
  (opening_faithful ..).bind fun _ => closing_faithful ..

theorem emptyNode_faithful : Faithful ts emptyNode := leaf_faithful ..

theorem single_faithful (key value : Nat) : Faithful ts (single key value) :=
  (opening_faithful ..).bind fun _ => closing_faithful ..

theorem absent_faithful (p : Properties) : Faithful ts (absent p) := by
  unfold absent
  exact .ite (leaf_faithful ..) .malformed

-- ============================================================== nodes

/-- All parts of the reader that call each other are faithful with some fuel. -/
structure Reads (ts : List Token) (n : Nat) : Prop where
  node : ∀ depth place, Faithful ts (node n depth place)
  content : ∀ depth place p, Faithful ts (content n depth place p)
  nodeUnless : ∀ depth place follow, Faithful ts (nodeUnless n depth place follow)
  blockItems : ∀ depth, Faithful ts (blockItems n depth)
  openItems : ∀ depth, Faithful ts (openItems n depth)
  blockValue : ∀ depth, Faithful ts (blockValue n depth)
  blockEntries : ∀ depth, Faithful ts (blockEntries n depth)
  flowValue : ∀ depth last, Faithful ts (flowValue n depth last)
  flowItems : ∀ depth first, Faithful ts (flowItems n depth first)
  flowEntries : ∀ depth first, Faithful ts (flowEntries n depth first)

namespace Reads

variable {n : Nat}

theorem node_step (h : Reads ts n) (depth : Nat) (place : Place) :
    Faithful ts (Read.node (n + 1) depth place) := by
  rw [Read.node]
  refine peek_faithful.bind fun t => ?_
  split
  · exact skip_faithful.bind fun _ => aliased_faithful _
  · refine properties_faithful.bind fun p => peek_faithful.bind fun _ => ?_
    exact (checkAnchor_faithful _).bind fun _ => h.content ..

theorem content_step (h : Reads ts n) (depth : Nat) (place : Place) (p : Properties) :
    Faithful ts (Read.content (n + 1) depth place p) := by
  have hnested : Faithful ts
      (if greatestDepth < depth then throw .tooDeep else pure () : Read Unit) :=
    .ite (Keeps.throw told_tooDeep) (.pure _)
  rw [Read.content]
  refine peek_faithful.bind fun t => ?_
  split
  · exact skip_faithful.bind fun _ => leaf_faithful ..
  · refine hnested.bind fun _ => skip_faithful.bind fun _ => ?_
    refine (opening_faithful ..).bind fun m => ?_
    exact (h.flowItems ..).bind fun _ => closing_faithful ..
  · refine hnested.bind fun _ => skip_faithful.bind fun _ => ?_
    refine (opening_faithful ..).bind fun m => ?_
    exact (h.flowEntries ..).bind fun _ => closing_faithful ..
  · refine .ite ?_ (absent_faithful _)
    refine hnested.bind fun _ => (opening_faithful ..).bind fun m => ?_
    exact (h.openItems _).bind fun _ => closing_faithful ..
  · refine .ite (absent_faithful _) ?_
    refine hnested.bind fun _ => skip_faithful.bind fun _ => ?_
    refine (opening_faithful ..).bind fun m => ?_
    exact (h.blockItems _).bind fun _ => closing_faithful ..
  · refine .ite (absent_faithful _) ?_
    refine hnested.bind fun _ => skip_faithful.bind fun _ => ?_
    refine (opening_faithful ..).bind fun m => ?_
    exact (h.blockEntries _).bind fun _ => closing_faithful ..
  · exact absent_faithful _

theorem nodeUnless_step (h : Reads ts n) (depth : Nat) (place : Place) (follow : List Token) :
    Faithful ts (Read.nodeUnless (n + 1) depth place follow) := by
  rw [Read.nodeUnless]
  exact (atOneOf_faithful _).bind fun _ => .ite emptyNode_faithful (h.node ..)

theorem blockItems_step (h : Reads ts n) (depth : Nat) :
    Faithful ts (Read.blockItems (n + 1) depth) := by
  rw [Read.blockItems]
  refine (skipIf_faithful _).bind fun _ => .ite ?_ ?_
  · exact (h.nodeUnless ..).bind fun _ => (h.blockItems _).bind fun _ => .pure _
  · exact (skipIf_faithful _).bind fun _ => .ite (.pure _) .malformed

theorem openItems_step (h : Reads ts n) (depth : Nat) :
    Faithful ts (Read.openItems (n + 1) depth) := by
  rw [Read.openItems]
  refine (skipIf_faithful _).bind fun _ => .ite ?_ (.pure _)
  exact (h.nodeUnless ..).bind fun _ => (h.openItems _).bind fun _ => .pure _

theorem blockValue_step (h : Reads ts n) (depth : Nat) :
    Faithful ts (Read.blockValue (n + 1) depth) := by
  rw [Read.blockValue]
  exact (skipIf_faithful _).bind fun _ => .ite (h.nodeUnless ..) emptyNode_faithful

theorem blockEntries_step (h : Reads ts n) (depth : Nat) :
    Faithful ts (Read.blockEntries (n + 1) depth) := by
  rw [Read.blockEntries]
  refine (skipIf_faithful _).bind fun _ => .ite ?_ ?_
  · refine (h.nodeUnless ..).bind fun _ => (h.blockValue _).bind fun _ => ?_
    exact (h.blockEntries _).bind fun _ => .pure _
  · exact (skipIf_faithful _).bind fun _ => .ite (.pure _) .malformed

theorem flowValue_step (h : Reads ts n) (depth : Nat) (last : Token) :
    Faithful ts (Read.flowValue (n + 1) depth last) := by
  rw [Read.flowValue]
  exact (skipIf_faithful _).bind fun _ => .ite (h.nodeUnless ..) emptyNode_faithful

theorem flowItems_step (h : Reads ts n) (depth : Nat) (first : Bool) :
    Faithful ts (Read.flowItems (n + 1) depth first) := by
  rw [Read.flowItems]
  refine (skipIf_faithful _).bind fun _ => .ite (.pure _) ?_
  extract_lets rest
  have hrest : ∀ u, Faithful ts (rest u) := by
    intro u
    refine (skipIf_faithful _).bind fun _ => .ite ?_ ?_
    · refine (h.nodeUnless ..).bind fun _ => (h.flowValue ..).bind fun _ => ?_
      refine (single_faithful ..).bind fun _ => ?_
      exact (h.flowItems ..).bind fun _ => .pure _
    · refine (skipIf_faithful _).bind fun _ => .ite (.pure _) ?_
      exact (h.node ..).bind fun _ => (h.flowItems ..).bind fun _ => .pure _
  exact .ite ((skipIf_faithful _).bind fun _ => .ite .malformed (hrest ())) (hrest ())

theorem flowEntries_step (h : Reads ts n) (depth : Nat) (first : Bool) :
    Faithful ts (Read.flowEntries (n + 1) depth first) := by
  rw [Read.flowEntries]
  refine (skipIf_faithful _).bind fun _ => .ite (.pure _) ?_
  extract_lets rest
  have hrest : ∀ u, Faithful ts (rest u) := by
    intro u
    refine (skipIf_faithful _).bind fun _ => .ite ?_ ?_
    · refine (h.nodeUnless ..).bind fun _ => (h.flowValue ..).bind fun _ => ?_
      exact (h.flowEntries ..).bind fun _ => .pure _
    · refine (skipIf_faithful _).bind fun _ => .ite (.pure _) ?_
      refine (h.node ..).bind fun _ => emptyNode_faithful.bind fun _ => ?_
      exact (h.flowEntries ..).bind fun _ => .pure _
  exact .ite ((skipIf_faithful _).bind fun _ => .ite .malformed (hrest ())) (hrest ())

/-- With fuel for one call more the parts are still faithful. -/
theorem step (h : Reads ts n) : Reads ts (n + 1) where
  node := h.node_step
  content := h.content_step
  nodeUnless := h.nodeUnless_step
  blockItems := h.blockItems_step
  openItems := h.openItems_step
  blockValue := h.blockValue_step
  blockEntries := h.blockEntries_step
  flowValue := h.flowValue_step
  flowItems := h.flowItems_step
  flowEntries := h.flowEntries_step

end Reads

theorem reads (ts : List Token) (n : Nat) : Reads ts n := by
  induction n with
  | zero =>
      constructor <;> intros <;> simp only [node, content, nodeUnless, blockItems, openItems,
        blockValue, blockEntries, flowValue, flowItems, flowEntries] <;> exact .malformed
  | succ n ih => exact ih.step

-- ========================================================== documents

/-- The directives are passed over, and nothing else. -/
theorem directives_ends (ts tokens : List Token) (versioned : Bool) (handles : Handles) :
    Ends (Told ts) (fun r => r.1 ⊆ tokens) (directives tokens versioned handles) := by
  fun_induction directives tokens versioned handles with
  | case1 => exact told_malformed
  | case2 _ _ _ _ _ ih => exact ih.imp (fun _ h => h) fun _ => List.subset_cons_of_subset _
  | case3 => exact told_malformed
  | case4 _ _ _ _ _ _ ih => exact ih.imp (fun _ h => h) fun _ => List.subset_cons_of_subset _
  | case5 _ _ _ ih => exact ih.imp (fun _ h => h) fun _ => List.subset_cons_of_subset _
  | case6 => exact List.Subset.refl _

theorem ownHandles_faithful : Faithful ts ownHandles := by
  refine Keeps.bind Keeps.get fun s hs => ?_
  refine Keeps.bind (.lift (directives_ends ts s.tokens false [])) fun r hr => ?_
  refine Keeps.bind (.modify fun _ _ => List.Subset.trans hr hs) fun _ _ => ?_
  exact peek_faithful.bind fun _ => .pure _

theorem skipEnds_faithful : Faithful ts skipEnds :=
  Keeps.modify fun _ hs => fun _ ht => hs ((List.dropWhile_sublist _).subset ht)

theorem root_faithful (follow : List Token) : Faithful ts (root follow) := by
  refine Faithful.get.bind fun s => ((reads ts _).nodeUnless ..).bind fun n => ?_
  refine skipEnds_faithful.bind fun _ => peek_faithful.bind fun t => .ite (.pure _) ?_
  exact ownHandles_faithful.bind fun _ => .malformed

theorem document_faithful : Faithful ts document := by
  have hannounced : Faithful ts document.announced := by
    refine ownHandles_faithful.bind fun own => Faithful.bind (.modify fun _ => ?_) fun _ => ?_
    · rfl
    · refine (skipIf_faithful _).bind fun _ => .ite ?_ .malformed
      exact peek_faithful.bind fun _ => (root_faithful _).bind fun _ => .pure _
  refine peek_faithful.bind fun t => ?_
  split
  · exact .pure _
  · exact hannounced
  · exact hannounced
  · exact (root_faithful _).bind fun _ => .pure _

end Read

/-- What tokens that describe no node fail with is told by one of them. -/
theorem told_of_error {f : Failure} (h : Graph.ofTokens ts = .error f) : Told ts f := by
  have hdocument := Read.document_faithful.run
    { tokens := ts, handles := .common } (List.Subset.refl ts)
  unfold Graph.ofTokens at h
  cases hrun : Read.document.run { tokens := ts, handles := .common } with
  | error e =>
      rw [hrun] at h hdocument
      obtain rfl : e = f := Except.error.inj h
      exact hdocument
  | ok r =>
      rw [hrun] at h
      cases h

end Verdict.Yaml
