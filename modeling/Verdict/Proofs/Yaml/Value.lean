/-
Where making values fails for a tag. Merging changes nodes in place, so a
text is read off a node that may have been changed since the graph was read;
but a scalar keeps its text, a mapping gets only entries of mappings that are
merged into it, and no node gets a kind of its own. A failure is therefore
traced to the graph as it was read: a node of it stands for a text that does
not suit its kind.

# Vocabulary

- `g.Merges n m`: the mapping `n` asks for the entries of `m`.
- `g.Holds n e`: the entry is one of the mapping, or of one merged into it.
- `g.Spells n text`: the node stands for a text.
- `g.Unfit f`: a node stands for a text that does not suit its kind.
- `g.Tracks n node`: what has become of a node of the graph.

# Main statements

- `Make.scalarMade_sound`: a node is made from a text that it stands for.
- `Make.takeMerges_sound`, `Make.mergeInto_sound`: merging gives a mapping only
  entries that it holds.
- `unfit_of_valueOf`: a value that fails for a tag fails for an unfit node.
-/
import Mathlib.Logic.Relation
import Verdict.Proofs.Yaml.Kind

namespace Verdict.Yaml

open Outcome

namespace Graph

-- ========================================================= vocabulary

/-- The node of a number. -/
def node (g : Graph) (n : Nat) : Node := g.nodes.getD n .empty

/-- The entries that are written for a mapping. -/
def entries (g : Graph) (n : Nat) : List (Nat × Nat) :=
  match (g.node n).content with
  | .mapping entries => entries
  | _ => []

/-- The items that are written for a sequence. -/
def items (g : Graph) (n : Nat) : List Nat :=
  match (g.node n).content with
  | .sequence items => items
  | _ => []

/-- A mapping asks for the entries of what stands under a merge key of it, or of
what that lists. -/
inductive Merges (g : Graph) : Nat → Nat → Prop where
  | one {n key value : Nat} (h : (key, value) ∈ g.entries n)
      (hkey : (g.node key).kind = .merge) : Merges g n value
  | listed {n key value item : Nat} (h : (key, value) ∈ g.entries n)
      (hkey : (g.node key).kind = .merge) (hitem : item ∈ g.items value) : Merges g n item

/-- An entry of a mapping, or of one that is merged into it. -/
def Holds (g : Graph) (n : Nat) (e : Nat × Nat) : Prop :=
  ∃ m, Relation.ReflTransGen g.Merges n m ∧ e ∈ g.entries m

/-- The text that a node stands for: its own, or that of a value under the key
for the value of a mapping. -/
inductive Spells (g : Graph) : Nat → List Char → Prop where
  | own {n : Nat} {text : List Char} (h : (g.node n).content = .scalar text) :
      Spells g n text
  | value {n key value : Nat} {text : List Char} (h : g.Holds n (key, value))
      (hkey : (g.node key).kind = .own) (hvalue : Spells g value text) : Spells g n text

/-- A node of a graph stands for a text that does not suit its kind, or it is a
time that is no text. -/
inductive Unfit (g : Graph) : TagFault → Prop where
  | text {n : Nat} {text : List Char} {f : TagFault} (hspells : g.Spells n text)
      (h : (g.node n).kind.Unfit text f) : Unfit g f
  | noText {n : Nat} {text : List Char} {entries : List (Nat × Nat)}
      (hspells : g.Spells n text) (hkind : (g.node n).kind = .time)
      (hcontent : (g.node n).content = .mapping entries) : Unfit g .noText

/-- A failure is one of a tag only where a node is unfit. -/
def Misfit (g : Graph) (e : Failure) : Prop := ∀ f, e = .tag f → g.Unfit f

/-- What can become of the content of a node. -/
inductive Retains (g : Graph) (n : Nat) : Content → Prop where
  | scalar {text : List Char} (h : (g.node n).content = .scalar text) :
      Retains g n (.scalar text)
  | sequence {items : List Nat} (h : (g.node n).content = .sequence items) :
      Retains g n (.sequence items)
  | mapping {own entries : List (Nat × Nat)} (h : (g.node n).content = .mapping own)
      (hentries : ∀ e ∈ entries, g.Holds n e) : Retains g n (.mapping entries)

/-- What can become of a node: its kind is left or becomes that of a text. -/
structure Tracks (g : Graph) (n : Nat) (node : Node) : Prop where
  kind : node.kind = (g.node n).kind ∨ node.kind = .text
  content : g.Retains n node.content

variable {g : Graph} {n m : Nat} {node : Node}

-- =============================================================== laws

/-- What is merged under an entry that a mapping holds gives it its entries. -/
theorem Holds.merged {key value : Nat} {e : Nat × Nat} (hentry : g.Holds n (key, value))
    (hkey : (g.node key).kind = .merge) (hm : m = value ∨ m ∈ g.items value)
    (h : g.Holds m e) : g.Holds n e := by
  obtain ⟨k, hnk, hmem⟩ := hentry
  obtain ⟨l, hml, he⟩ := h
  have hkm : g.Merges k m := by
    rcases hm with rfl | hitem
    · exact .one hmem hkey
    · exact .listed hmem hkey hitem
  exact ⟨l, hnk.trans (.head hkm hml), he⟩

/-- A scalar stands for its own text alone. -/
theorem Spells.eq_of_scalar {text own : List Char} (h : g.Spells n text)
    (hcontent : (g.node n).content = .scalar own) : text = own := by
  have hentries : g.entries n = [] := by
    unfold entries
    rw [hcontent]
  cases h with
  | own h => exact Content.scalar.inj (h.symm.trans hcontent)
  | value hholds _ _ =>
      obtain ⟨m, hreach, hmem⟩ := hholds
      rcases Relation.ReflTransGen.cases_head hreach with rfl | ⟨k, hmerges, -⟩
      · rw [hentries] at hmem
        cases hmem
      · cases hmerges with
        | one h _ =>
            rw [hentries] at h
            cases h
        | listed h _ _ =>
            rw [hentries] at h
            cases h

theorem tracks_node (g : Graph) (n : Nat) : g.Tracks n (g.node n) := by
  refine ⟨.inl rfl, ?_⟩
  cases hcontent : (g.node n).content with
  | scalar text => exact .scalar hcontent
  | sequence items => exact .sequence hcontent
  | mapping own =>
      refine .mapping hcontent fun e he => ⟨n, .refl, ?_⟩
      unfold entries
      rw [hcontent]
      exact he

theorem Tracks.withEntries {own entries : List (Nat × Nat)} (h : g.Tracks n node)
    (hcontent : (g.node n).content = .mapping own) (hentries : ∀ e ∈ entries, g.Holds n e) :
    g.Tracks n { node with content := .mapping entries } :=
  ⟨h.kind, .mapping hcontent hentries⟩

theorem Tracks.asText (h : g.Tracks n node) : g.Tracks n { node with kind := .text } :=
  ⟨.inr rfl, h.content⟩

/-- A kind other than that of a text is the one that was read. -/
theorem Tracks.kind_eq (h : g.Tracks n node) {kind : Kind} (hkind : node.kind = kind)
    (hne : kind ≠ .text) : (g.node n).kind = kind := by
  rcases h.kind with heq | heq
  · rw [← heq, hkind]
  · exact absurd (hkind.symm.trans heq) hne

end Graph

namespace Make

variable {α : Type} {g : Graph} {n : Nat}

/-- A part of the making, begun where the nodes are traced to a graph, leaves them
so, and fails for a tag only where a node of the graph is unfit. -/
abbrev Sound (g : Graph) (Q : α → Prop) (x : Make α) : Prop :=
  Keeps (fun s => ∀ n, g.Tracks n (s.nodes.getD n .empty)) g.Misfit Q x

theorem malformed_sound {Q : α → Prop} : Sound g Q (throw .malformed) := .throw nofun

-- ============================================================== nodes

theorem nodeAt_sound (n : Nat) : Sound g (g.Tracks n) (nodeAt n) :=
  Keeps.get.bind fun _ hs => .pure (hs n)

theorem entriesOf_sound (n : Nat) :
    Sound g (fun entries => (∃ own, (g.node n).content = .mapping own)
      ∧ ∀ e ∈ entries, g.Holds n e) (entriesOf n) := by
  refine (nodeAt_sound n).bind fun node hnode => ?_
  have hcontent := hnode.content
  split
  next entries heq =>
    rw [heq] at hcontent
    cases hcontent with
    | mapping h hentries => exact .pure ⟨⟨_, h⟩, hentries⟩
  next => exact malformed_sound

theorem itemsOf_sound (n : Nat) : Sound g (fun _ => True) (itemsOf n) := by
  refine (nodeAt_sound n).bind fun node _ => ?_
  split
  · exact .pure trivial
  · exact malformed_sound

theorem change_sound {f : Node → Node} (h : ∀ node, g.Tracks n node → g.Tracks n (f node)) :
    Sound g (fun _ => True) (change n f) := by
  refine .modify fun s hs m => ?_
  have hm := hs m
  rw [Array.getD_eq_getD_getElem?] at hm
  show g.Tracks m ((s.nodes.modify n f).getD m .empty)
  rw [Array.getD_eq_getD_getElem?, Array.getElem?_modify]
  split
  next heq =>
    subst heq
    cases hnode : s.nodes[n]? with
    | none =>
        rw [hnode] at hm
        exact hm
    | some node =>
        rw [hnode] at hm
        exact h node hm
  next => exact hm

theorem become_sound (n : Nat) (made : Made) : Sound g (fun _ => True) (become n made) :=
  .modify fun _ hs => hs

theorem madeAt_sound (n : Nat) : Sound g (fun _ => True) (madeAt n) :=
  Keeps.get.bind fun _ _ => .pure trivial

-- ============================================================= scalars

/-- The text of a node is one that it stands for. -/
theorem textOf_sound (levels n : Nat) : Sound g (g.Spells n) (textOf levels n) := by
  induction levels generalizing n with
  | zero => exact .throw nofun
  | succ levels ih =>
      rw [textOf]
      refine (nodeAt_sound n).bind fun node hnode => ?_
      have hcontent := hnode.content
      split
      next text heq =>
        rw [heq] at hcontent
        cases hcontent with
        | scalar h => exact .pure (.own h)
      next => exact malformed_sound
      next entries heq =>
        rw [heq] at hcontent
        cases hcontent with
        | mapping _ hentries =>
            refine Keeps.get.bind fun s hs => ?_
            dsimp only
            split
            next key value hfind =>
              have hmem := List.mem_of_find?_eq_some hfind
              have hkind := List.find?_some hfind
              refine (ih value).imp fun text htext => ?_
              refine .value (hentries _ hmem) ((hs key).kind_eq ?_ nofun) htext
              simpa using hkind
            next => exact malformed_sound

/-- A node is made from a text that it stands for, and fails for a tag only if
that text does not suit it. -/
theorem scalarMade_sound (n : Nat) : Sound g (fun _ => True) (scalarMade n) := by
  refine Keeps.get.bind fun s _ => (textOf_sound _ n).bind fun text htext => ?_
  refine (nodeAt_sound n).bind fun node hnode => ?_
  split
  next entries hkind hcontent =>
    refine .throw fun f hf => ?_
    obtain rfl := Failure.tag.inj hf
    have hmapping := hnode.content
    rw [hcontent] at hmapping
    cases hmapping with
    | mapping h _ => exact .noText htext (hnode.kind_eq hkind nofun) h
  next =>
    have hvalue : Ends g.Misfit (fun _ => True) (textValue node.kind text) := by
      cases heq : textValue node.kind text with
      | ok v => trivial
      | error e =>
          intro f hf
          rw [hf] at heq
          have hunfit := textValue_eq_tag.1 heq
          have hne : node.kind ≠ .text := by
            intro hkind
            rw [hkind] at hunfit
            cases hunfit
          rw [← hnode.kind_eq rfl hne] at hunfit
          exact .text htext hunfit
    refine (Keeps.lift hvalue).bind fun v _ => ?_
    split
    · exact .pure trivial
    · exact .pure trivial

theorem make_sound (n : Nat) : Sound g (fun _ => True) (make n) := by
  refine (madeAt_sound n).bind fun made _ => .ite (fun _ => ?_) fun _ => .pure trivial
  refine (nodeAt_sound n).bind fun node _ => ?_
  split
  · exact (become_sound ..).bind fun _ _ => .modify fun _ hs => hs
  · exact (scalarMade_sound n).bind fun made _ => become_sound ..

-- ============================================================ merging

/-- What a node adds to a mapping it is merged into are entries of its own, or of
the mappings it lists. -/
theorem addedBy_sound {merge : Nat → Make Unit}
    (hmerge : ∀ m, Sound g (fun _ => True) (merge m)) (n : Nat) :
    Sound g (fun added => ∀ e ∈ added, ∃ m, (m = n ∨ m ∈ g.items n) ∧ g.Holds m e)
      (addedBy merge n) := by
  have hadded : ∀ m, Sound g (fun added => ∀ e ∈ added, g.Holds m e) (do
      discard (entriesOf m)
      merge m
      entriesOf m) := by
    intro m
    refine (entriesOf_sound m).discard.bind fun _ _ => (hmerge m).bind fun _ _ => ?_
    exact (entriesOf_sound m).imp fun _ h => h.2
  refine (nodeAt_sound n).bind fun node hnode => ?_
  have hcontent := hnode.content
  split
  next items heq =>
    rw [heq] at hcontent
    cases hcontent with
    | sequence h =>
        have hitems : g.items n = items := by
          unfold Graph.items
          rw [h]
        refine Keeps.bind (Q := fun lists => ∀ added ∈ lists, ∀ e ∈ added,
          ∃ m ∈ items, g.Holds m e) ?_ fun lists hlists => .pure fun e he => ?_
        · exact .mapM fun m hm => (hadded m).imp fun _ h e he => ⟨m, hm, h e he⟩
        · obtain ⟨added, hadded, he⟩ := List.mem_flatten.1 he
          obtain ⟨m, hm, hholds⟩ := hlists added (List.mem_reverse.1 hadded) e he
          exact ⟨m, .inr (hitems ▸ hm), hholds⟩
  next => exact (hadded n).imp fun _ h e he => ⟨n, .inl rfl, h e he⟩

/-- Merging gives a mapping only entries that it holds. -/
theorem takeMerges_sound {merge : Nat → Make Unit}
    (hmerge : ∀ m, Sound g (fun _ => True) (merge m)) {own : List (Nat × Nat)}
    (hown : (g.node n).content = .mapping own) {passed entries : List (Nat × Nat)}
    (hpassed : ∀ e ∈ passed, g.Holds n e) (hentries : ∀ e ∈ entries, g.Holds n e) :
    Sound g (fun added => ∀ e ∈ added, g.Holds n e) (takeMerges merge n passed entries) := by
  induction entries generalizing passed with
  | nil => exact .pure fun e he => absurd he List.not_mem_nil
  | cons e entries ih =>
      obtain ⟨key, value⟩ := e
      obtain ⟨hentry, hentries⟩ := List.forall_mem_cons.1 hentries
      have hpassed' := List.forall_mem_cons.2 ⟨hentry, hpassed⟩
      rw [takeMerges]
      refine (nodeAt_sound key).bind fun node hnode => ?_
      split
      next hkind =>
        have hleft : ∀ e ∈ passed.reverse ++ entries, g.Holds n e := by
          intro e he
          rcases List.mem_append.1 he with he | he
          · exact hpassed e (List.mem_reverse.1 he)
          · exact hentries e he
        refine (change_sound fun _ h => h.withEntries hown hleft).bind fun _ _ => ?_
        refine (addedBy_sound hmerge value).bind fun added hadded => ?_
        have hadds : ∀ e ∈ added, g.Holds n e := by
          intro e he
          obtain ⟨m, hm, hholds⟩ := hadded e he
          exact hentry.merged (hnode.kind_eq hkind nofun) hm hholds
        refine (entriesOf_sound n).bind fun left _ => .ite (fun _ => ?_) fun _ => .pure hadds
        refine (ih hpassed hentries).bind fun more hmore => .pure fun e he => ?_
        rcases List.mem_append.1 he with he | he
        · exact hadds e he
        · exact hmore e he
      next =>
        exact (change_sound fun _ h => h.asText).bind fun _ _ => ih hpassed' hentries
      next => exact ih hpassed' hentries

theorem mergeInto_sound (levels n : Nat) : Sound g (fun _ => True) (mergeInto levels n) := by
  induction levels generalizing n with
  | zero => exact malformed_sound
  | succ levels ih =>
      rw [mergeInto]
      refine (entriesOf_sound n).bind fun entries hentries => ?_
      obtain ⟨⟨own, hown⟩, hentries⟩ := hentries
      refine (takeMerges_sound ih hown (fun e he => absurd he List.not_mem_nil) hentries).bind ?_
      intro added hadded
      refine .ite (fun _ => (entriesOf_sound n).bind fun left hleft => ?_) fun _ => .pure trivial
      refine change_sound fun _ h => h.withEntries hown fun e he => ?_
      rcases List.mem_append.1 he with he | he
      · exact hadded e he
      · exact hleft.2 e he

-- ============================================================= filling

theorem isSameKey_sound (n m : Nat) : Sound g (fun _ => True) (isSameKey n m) := by
  refine (madeAt_sound n).bind fun _ _ => (madeAt_sound m).bind fun _ _ => ?_
  split
  · exact .pure trivial
  · exact .pure trivial

theorem withEntry_sound (key value : Nat) (entries : List (Nat × Nat)) :
    Sound g (fun _ => True) (withEntry key value entries) := by
  induction entries with
  | nil => exact .pure trivial
  | cons e entries ih =>
      refine (isSameKey_sound ..).bind fun _ _ => .ite (fun _ => .pure trivial) fun _ => ?_
      exact ih.bind fun _ _ => .pure trivial

theorem makeEntries_sound (read entries : List (Nat × Nat)) :
    Sound g (fun _ => True) (makeEntries read entries) := by
  induction entries generalizing read with
  | nil => exact .pure trivial
  | cons e entries ih =>
      refine (make_sound _).bind fun _ _ => (madeAt_sound _).bind fun _ _ => ?_
      refine .ite (fun _ => malformed_sound) fun _ => ?_
      refine (make_sound _).bind fun _ _ => (withEntry_sound ..).bind fun _ _ => ih _

theorem filledEntries_sound (levels n : Nat) :
    Sound g (fun _ => True) (filledEntries levels n) := by
  refine (entriesOf_sound n).discard.bind fun _ _ => (mergeInto_sound ..).bind fun _ _ => ?_
  exact (entriesOf_sound n).bind fun _ _ => makeEntries_sound ..

theorem makePair_sound (n : Nat) : Sound g (fun _ => True) (makePair n) := by
  refine (entriesOf_sound n).bind fun _ _ => ?_
  split
  · refine (make_sound _).bind fun _ _ => (make_sound _).bind fun _ _ => .pure trivial
  · exact malformed_sound

theorem fill_sound (levels n : Nat) : Sound g (fun _ => True) (fill levels n) := by
  refine (nodeAt_sound n).bind fun node _ => ?_
  split
  · refine (itemsOf_sound n).bind fun items _ => ?_
    exact (Keeps.forM fun m _ => make_sound m).bind fun _ _ => become_sound ..
  · exact (filledEntries_sound ..).bind fun _ _ => become_sound ..
  · exact (filledEntries_sound ..).bind fun _ _ => become_sound ..
  · refine (itemsOf_sound n).bind fun items _ => ?_
    exact (Keeps.mapM fun m _ => makePair_sound m).bind fun _ _ => become_sound ..

theorem fillFrom_sound (levels steps i : Nat) :
    Sound g (fun _ => True) (fillFrom levels steps i) := by
  induction steps generalizing i with
  | zero => exact .pure trivial
  | succ steps ih =>
      refine Keeps.get.bind fun s _ => ?_
      split
      · exact (fill_sound ..).bind fun _ _ => ih _
      · exact .pure trivial

theorem makeAll_sound (root : Nat) : Sound g (fun _ => True) (makeAll root) :=
  Keeps.get.bind fun _ _ => (make_sound root).bind fun _ _ => fillFrom_sound ..

end Make

/-- A value that fails for a tag fails for an unfit node of the graph. -/
theorem unfit_of_valueOf {g : Graph} {root : Nat} {f : TagFault}
    (h : g.valueOf root = .error (.tag f)) : g.Unfit f := by
  have hmake := (Make.makeAll_sound (g := g) root).run
    { nodes := g.nodes, made := Array.replicate g.nodes.size none } g.tracks_node
  unfold Graph.valueOf at h
  dsimp only at h
  cases hrun : (Make.makeAll root).run
      { nodes := g.nodes, made := Array.replicate g.nodes.size none } with
  | error e =>
      rw [hrun] at h hmake
      exact hmake f (Except.error.inj h)
  | ok r =>
      rw [hrun] at h
      cases h

end Verdict.Yaml
