/-
The nodes of an expression: an induction that follows the constructors,
the nodes that stand in an expression, its height, and what rewriting the
leaves does to all of these.

# Vocabulary

- `Within d e`: the node `d` stands somewhere in `e`, `e` itself counted.
  Everything said of "a node of an expression" is said with it.
- `Full e`: no connective in `e` is empty.
- `IsLeaf d`: nothing can stand under `d`, so it stands in a node exactly
  when it stands in a child.
- `Refers e name`: a reference by that name stands in `e`. The names that
  `references` lists are these (`mem_references`); the walk it is read off
  lists what stands in the expression (`mem_walk`).
- `height e`: the nodes on the longest way down, the root counted.
- `map f e`: the expression with its leaves rewritten.
-/
import Mathlib.Order.Basic
import Verdict.Expr.Walk

namespace Verdict.Expr

variable {ρ σ : Type}

-- ========================================================== induction

/-- Induction over an expression: of a connective, each child has what is
proved. -/
@[elab_as_elim]
theorem induct {motive : Expr ρ → Prop}
    (join : ∀ c children, (∀ e ∈ children, motive e) → motive (.join c children))
    (not : ∀ child, motive child → motive (.not child))
    (rule : ∀ leaf, motive (.rule leaf))
    (named : ∀ tag name, motive (.named tag name))
    (inline : ∀ tag child, motive child → motive (.inline tag child))
    (e : Expr ρ) : motive e := by
  refine @Expr.rec ρ motive (fun es => ∀ e ∈ es, motive e)
    join not rule named inline ?_ ?_ e
  · intro e he
    cases he
  · intro e es he hes d hd
    rcases List.mem_cons.1 hd with rfl | hd
    · exact he
    · exact hes d hd

/-- Induction over an expression whose node plays no part: what each child
has, the expression has. -/
@[elab_as_elim]
theorem byChildren {motive : Expr ρ → Prop}
    (node : ∀ e, (∀ child ∈ e.children, motive child) → motive e)
    (e : Expr ρ) : motive e := by
  induction e using induct with
  | join c children ih => exact node _ ih
  | not child ih => exact node _ (by simpa [children] using ih)
  | rule leaf => exact node _ (by simp [children])
  | named tag name => exact node _ (by simp [children])
  | inline tag child ih => exact node _ (by simpa [children] using ih)

-- ====================================================== nodes within

/-- A node stands in an expression. -/
inductive Within (d : Expr ρ) : Expr ρ → Prop where
  | self : Within d d
  | under {e child : Expr ρ} (hchild : child ∈ e.children)
      (hd : Within d child) : Within d e

/-- What stands in an expression is the expression, or stands in a
child. -/
theorem within_iff {d e : Expr ρ} :
    Within d e ↔ d = e ∨ ∃ child ∈ e.children, Within d child := by
  constructor
  · intro h
    cases h with
    | self => exact Or.inl rfl
    | under hchild hd => exact Or.inr ⟨_, hchild, hd⟩
  · intro h
    rcases h with rfl | ⟨child, hchild, hd⟩
    · exact .self
    · exact .under hchild hd

/-- What holds of all nodes of an expression holds of it and of all nodes of
its children. -/
theorem forall_within_iff {P : Expr ρ → Prop} {e : Expr ρ} :
    (∀ d, Within d e → P d) ↔ P e ∧ ∀ child ∈ e.children, ∀ d, Within d child → P d := by
  constructor
  · intro h
    exact ⟨h e .self, fun child hchild d hd => h d (.under hchild hd)⟩
  · intro h d hd
    obtain ⟨he, hchildren⟩ := h
    rcases within_iff.1 hd with rfl | ⟨child, hchild, hd⟩
    · exact he
    · exact hchildren child hchild d hd

/-- No connective in an expression is without children. -/
def Full (e : Expr ρ) : Prop := ∀ c, ¬ Within (.join c []) e

theorem Full.child {e child : Expr ρ} (h : e.Full) (hchild : child ∈ e.children) : child.Full :=
  fun c hw => h c (.under hchild hw)

theorem Full.first {e child : Expr ρ} {others : List (Expr ρ)} (h : e.Full)
    (hchildren : e.children = child :: others) : child.Full := by
  refine h.child ?_
  rw [hchildren]
  exact List.mem_cons_self ..

/-- A node that nothing can stand under. -/
def IsLeaf : Expr ρ → Prop
  | .rule _ => True
  | .named _ _ => True
  | _ => False

section leaves

variable {d child : Expr ρ} {leaf other : ρ} {c : Connective} {es : List (Expr ρ)}
  {tag name : String}

theorem within_join (hd : d.IsLeaf) : Within d (.join c es) ↔ ∃ e ∈ es, Within d e := by
  rw [within_iff]
  refine or_iff_right fun heq => ?_
  rw [heq] at hd
  exact hd

theorem within_not (hd : d.IsLeaf) : Within d (.not child) ↔ Within d child := by
  rw [within_iff]
  have hne : d ≠ .not child := by
    intro heq
    rw [heq] at hd
    exact hd
  simp [children, hne]

theorem within_inline (hd : d.IsLeaf) : Within d (.inline tag child) ↔ Within d child := by
  rw [within_iff]
  have hne : d ≠ .inline tag child := by
    intro heq
    rw [heq] at hd
    exact hd
  simp [children, hne]

theorem leaf_within_join :
    Within (.rule leaf) (.join c es) ↔ ∃ e ∈ es, Within (.rule leaf) e := within_join trivial

theorem leaf_within_not :
    Within (.rule leaf) (.not child) ↔ Within (.rule leaf) child := within_not trivial

theorem leaf_within_rule : Within (.rule leaf) (.rule other) ↔ leaf = other := by
  rw [within_iff]
  simp [children]

theorem leaf_within_named :
    ¬ Within (.rule leaf) (.named tag name : Expr ρ) := by
  rw [within_iff]
  simp [children]

theorem leaf_within_inline :
    Within (.rule leaf) (.inline tag child) ↔ Within (.rule leaf) child :=
  within_inline trivial

end leaves

-- ============================================================== walks

/-- A walk lists what stands in the expressions it is given. -/
theorem mem_walkAll {d : Expr ρ} (pending : List (Expr ρ)) :
    d ∈ walkAll pending ↔ ∃ e ∈ pending, Within d e := by
  induction pending using walkAll.induct with
  | case1 => simp [walkAll]
  | case2 e pending ih =>
      rw [walkAll, List.mem_cons, ih]
      simp only [List.mem_cons, List.mem_append, or_and_right, exists_or,
        exists_eq_left]
      rw [← or_assoc, ← within_iff]

theorem mem_walk {d e : Expr ρ} : d ∈ e.walk ↔ Within d e := by
  unfold walk
  rw [mem_walkAll]
  simp

/-- An expression refers to a name. -/
def Refers (e : Expr ρ) (name : String) : Prop :=
  ∃ tag, Within (.named tag name) e

/-- The first occurrences are of the same things. -/
theorem mem_firsts {α : Type _} [BEq α] [LawfulBEq α] {a : α} (xs : List α) :
    a ∈ Text.firsts xs ↔ a ∈ xs := by
  induction xs with
  | nil => rfl
  | cons x xs ih =>
      rw [Text.firsts, List.mem_cons, List.mem_cons, List.mem_filter, ih]
      by_cases hax : a = x
      · simp [hax]
      · simp [hax]

/-- The names listed for an expression are those it refers to. -/
theorem mem_references {e : Expr ρ} {name : String} :
    name ∈ e.references ↔ e.Refers name := by
  unfold references Refers
  rw [mem_firsts, List.mem_filterMap]
  constructor
  · intro h
    obtain ⟨d, hd, hname⟩ := h
    cases d with
    | named tag n =>
        injection hname with hname
        subst hname
        exact ⟨tag, mem_walk.1 hd⟩
    | join c children => cases hname
    | not child => cases hname
    | rule leaf => cases hname
    | inline tag child => cases hname
  · intro h
    obtain ⟨tag, h⟩ := h
    exact ⟨_, mem_walk.2 h, rfl⟩

section references

variable {child : Expr ρ} {leaf : ρ} {c : Connective} {es : List (Expr ρ)}
  {tag name other : String}

/-- A reference refers to its name and to nothing else; any other node
refers to what its children do. -/
theorem refers_named : Refers (.named tag name : Expr ρ) other ↔ other = name := by
  unfold Refers
  constructor
  · intro h
    obtain ⟨tag', h⟩ := h
    rcases within_iff.1 h with h | ⟨child, hchild, -⟩
    · injection h
    · cases hchild
  · intro h
    rw [h]
    exact ⟨tag, .self⟩

theorem refers_join : Refers (.join c es) name ↔ ∃ e ∈ es, Refers e name := by
  unfold Refers
  constructor
  · intro h
    obtain ⟨tag, h⟩ := h
    obtain ⟨e, he, h⟩ := (within_join (d := .named tag name) trivial).1 h
    exact ⟨e, he, tag, h⟩
  · intro h
    obtain ⟨e, he, tag, h⟩ := h
    exact ⟨tag, .under he h⟩

theorem refers_not : Refers (.not child) name ↔ Refers child name :=
  exists_congr fun _ => within_not trivial

theorem refers_inline : Refers (.inline tag child) name ↔ Refers child name :=
  exists_congr fun _ => within_inline trivial

theorem not_refers_rule : ¬ Refers (.rule leaf) name := by
  intro h
  obtain ⟨tag, h⟩ := h
  rcases within_iff.1 h with h | ⟨child, hchild, -⟩
  · cases h
  · cases hchild

end references

theorem Refers.under {e child : Expr ρ} {name : String}
    (hchild : child ∈ e.children) (h : child.Refers name) : e.Refers name := by
  obtain ⟨tag, h⟩ := h
  exact ⟨tag, .under hchild h⟩

-- ============================================================= height

mutual

/-- The nodes on the longest way down from an expression, itself
counted. -/
def height : Expr ρ → Nat
  | .join _ children => 1 + heights children
  | .not child => 1 + height child
  | .rule _ => 1
  | .named _ _ => 1
  | .inline _ child => 1 + height child

/-- The greatest height among expressions. -/
def heights : List (Expr ρ) → Nat
  | [] => 0
  | e :: rest => max (height e) (heights rest)

end

theorem heights_le_iff {es : List (Expr ρ)} {n : Nat} :
    heights es ≤ n ↔ ∀ e ∈ es, e.height ≤ n := by
  induction es with
  | nil => simp [heights]
  | cons e es ih => rw [heights, Nat.max_le, ih, List.forall_mem_cons]

/-- An expression is one node higher than what stands under it. -/
theorem height_eq (e : Expr ρ) : e.height = 1 + heights e.children := by
  cases e <;> simp [height, heights, children]

theorem size_le_sizes {e : Expr ρ} {es : List (Expr ρ)} (h : e ∈ es) :
    e.size ≤ sizes es := by
  obtain ⟨pre, post, rfl⟩ := List.append_of_mem h
  rw [sizes_append, sizes]
  omega

theorem height_pos (e : Expr ρ) : 1 ≤ e.height := by
  rw [height_eq]
  omega

-- ============================================================ leaves

mutual

/-- The expression with its leaves rewritten. -/
def map (f : ρ → σ) : Expr ρ → Expr σ
  | .join c children => .join c (mapAll f children)
  | .not child => .not (map f child)
  | .rule leaf => .rule (f leaf)
  | .named tag name => .named tag name
  | .inline tag child => .inline tag (map f child)

/-- The expressions with their leaves rewritten. -/
def mapAll (f : ρ → σ) : List (Expr ρ) → List (Expr σ)
  | [] => []
  | e :: rest => map f e :: mapAll f rest

end

@[simp] theorem mapAll_eq (f : ρ → σ) (es : List (Expr ρ)) :
    mapAll f es = es.map (map f) := by
  induction es with
  | nil => rfl
  | cons e es ih => rw [mapAll, ih, List.map_cons]

theorem map_id (e : Expr ρ) : e.map id = e := by
  induction e using induct with
  | join c es ih => rw [map, mapAll_eq, List.map_congr_left ih, List.map_id']
  | not e ih => rw [map, ih]
  | rule leaf => rfl
  | named tag name => rfl
  | inline tag e ih => rw [map, ih]

theorem children_map (f : ρ → σ) (e : Expr ρ) :
    (e.map f).children = e.children.map (map f) := by
  cases e <;> simp [map, children]

theorem Within.map {d e : Expr ρ} (f : ρ → σ) (h : Within d e) :
    Within (d.map f) (e.map f) := by
  induction h with
  | self => exact .self
  | @under e child hchild _ ih =>
      refine .under ?_ ih
      rw [children_map]
      exact List.mem_map_of_mem hchild

/-- What is rewritten to a full expression is full. -/
theorem Full.of_map {e : Expr ρ} {f : ρ → σ} (h : (e.map f).Full) : e.Full :=
  fun c hw => h c (hw.map f)

theorem height_map (f : ρ → σ) (e : Expr ρ) : (e.map f).height = e.height := by
  induction e using byChildren with
  | node e ih =>
      have hle : ∀ n, heights (e.children.map (map f)) ≤ n ↔ heights e.children ≤ n := by
        intro n
        rw [heights_le_iff, heights_le_iff, List.forall_mem_map]
        exact forall₂_congr fun child hchild => by rw [ih child hchild]
      rw [height_eq, height_eq e, children_map,
        Nat.le_antisymm ((hle _).2 (Nat.le_refl _)) ((hle _).1 (Nat.le_refl _))]

theorem toValuesWith_eq (leaf : ρ → Value) (es : List (Expr ρ)) :
    toValuesWith leaf es = es.map (toValueWith leaf) := by
  induction es with
  | nil => rfl
  | cons e es ih => rw [toValuesWith, ih, List.map_cons]

/-- Printing rewritten leaves is printing the leaves by what they are rewritten
to. -/
theorem toValueWith_map (f : ρ → σ) (leaf : σ → Value) (e : Expr ρ) :
    (e.map f).toValueWith leaf = e.toValueWith (leaf ∘ f) := by
  induction e using induct with
  | join c es ih =>
      have hes : (es.map (map f)).map (toValueWith leaf) = es.map (toValueWith (leaf ∘ f)) := by
        rw [List.map_map]
        exact List.map_congr_left ih
      rw [map, toValueWith, toValueWith, mapAll_eq, toValuesWith_eq, toValuesWith_eq, hes]
  | not e ih => rw [map, toValueWith, toValueWith, ih]
  | rule r => rfl
  | named tag name => rfl
  | inline tag e ih => rw [map, toValueWith, toValueWith, ih]

/-- Rewriting the leaves keeps the references. -/
theorem refers_map (f : ρ → σ) (e : Expr ρ) (name : String) :
    (e.map f).Refers name ↔ e.Refers name := by
  unfold Refers
  refine exists_congr fun tag => ?_
  induction e using byChildren with
  | node e ih =>
      have hnode : .named tag name = e.map f ↔ .named tag name = e := by
        cases e <;> simp [map]
      rw [within_iff, within_iff (e := e), hnode, children_map]
      refine or_congr_right ?_
      constructor
      · intro h
        obtain ⟨mapped, hmapped, hd⟩ := h
        obtain ⟨child, hchild, rfl⟩ := List.mem_map.1 hmapped
        exact ⟨child, hchild, (ih child hchild).1 hd⟩
      · intro h
        obtain ⟨child, hchild, hd⟩ := h
        exact ⟨_, List.mem_map_of_mem hchild, (ih child hchild).2 hd⟩

end Verdict.Expr
