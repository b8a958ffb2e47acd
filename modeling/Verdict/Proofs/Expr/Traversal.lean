/-
The walk in recursive order. A walk takes the first of the nodes that are still
to come and puts its children in its place; what it lists is what a recursion
over the expression lists, node by node in each place of the expression. So the
references read off it are all that an evaluation can look up on its own: what
it looks up beyond them, it looks up for an expression that it has found.

# Vocabulary

- `e.preorder`: the nodes of `e` by recursion, each before those of its children.
- `e.nodeAt? place`: the node in a place, which says for each step down from the
  root the number of the child.
- `evaluateNoting answer n e s`: the evaluation, with the names that it has looked up
  for `e` itself noted beside its outcome; `answer` says what a name comes to.
- `answerIn scope`: what it comes to in a scope.

# Main statements

- `walkAll_eq_flatMap`: what is pending is listed one expression after the other.
- `preorder_places`: recursion lists each place once, in the order of the places.
- `evaluateNoting_snd`: noting changes nothing.
- `evaluateNoting_congr`: an evaluation depends on the names noted, and on no other.
- `walk_covers`: the walk, the references and the names looked up.
-/
import Mathlib.Data.List.Lex
import Verdict.Proofs.Expr.Meaning
import Verdict.Proofs.Expr.Nodes

namespace Verdict.Expr

variable {ρ : Type}

-- ============================================================ recursion

mutual

/-- The nodes of an expression: the expression itself, and then the nodes of its
children in order. -/
def preorder : Expr ρ → List (Expr ρ)
  | .join c children => .join c children :: preorderAll children
  | .not child => .not child :: preorder child
  | .rule leaf => [.rule leaf]
  | .named tag name => [.named tag name]
  | .inline tag child => .inline tag child :: preorder child

/-- The nodes of expressions in order. -/
def preorderAll : List (Expr ρ) → List (Expr ρ)
  | [] => []
  | e :: rest => preorder e ++ preorderAll rest

end

theorem preorderAll_eq_flatMap (es : List (Expr ρ)) : preorderAll es = es.flatMap preorder := by
  induction es with
  | nil => rfl
  | cons e es ih => rw [preorderAll, ih, List.flatMap_cons]

theorem preorder_eq (e : Expr ρ) : e.preorder = e :: e.children.flatMap preorder := by
  cases e <;> simp [preorder, children, preorderAll_eq_flatMap]

/-- What is pending is listed one expression after the other, each by recursion. -/
theorem walkAll_eq_flatMap (pending : List (Expr ρ)) :
    walkAll pending = pending.flatMap preorder := by
  induction pending using walkAll.induct with
  | case1 => rw [walkAll, List.flatMap_nil]
  | case2 e pending ih =>
      rw [walkAll, ih, List.flatMap_append, List.flatMap_cons, preorder_eq, List.cons_append]

theorem walk_eq_preorder (e : Expr ρ) : e.walk = e.preorder := by
  unfold walk
  rw [walkAll_eq_flatMap, List.flatMap_singleton]

/-- A walk goes to the expression first, and then through its children. -/
theorem walk_eq_cons (e : Expr ρ) : e.walk = e :: e.children.flatMap walk := by
  rw [walk_eq_preorder, preorder_eq, funext walk_eq_preorder]

-- =============================================================== places

/-- The node in a place of an expression. -/
def nodeAt? : Expr ρ → List Nat → Option (Expr ρ)
  | e, [] => some e
  | e, i :: place => e.children[i]?.bind fun child => child.nodeAt? place

mutual

/-- The places of an expression: the root, and then those in its children. -/
def places : Expr ρ → List (List Nat)
  | .join _ children => [] :: placesFrom 0 children
  | .not child => [] :: (places child).map (0 :: ·)
  | .rule _ => [[]]
  | .named _ _ => [[]]
  | .inline _ child => [] :: (places child).map (0 :: ·)

/-- The places in children, of which the first has the given number. -/
def placesFrom (i : Nat) : List (Expr ρ) → List (List Nat)
  | [] => []
  | e :: rest => (places e).map (i :: ·) ++ placesFrom (i + 1) rest

end

theorem places_eq (e : Expr ρ) : e.places = [] :: placesFrom 0 e.children := by
  cases e <;> simp [places, children, placesFrom]

theorem cons_mem_placesFrom {i j : Nat} {place : List Nat} {es : List (Expr ρ)} :
    j :: place ∈ placesFrom i es ↔
      i ≤ j ∧ ∃ child, es[j - i]? = some child ∧ place ∈ child.places := by
  induction es generalizing i with
  | nil => simp [placesFrom]
  | cons e es ih =>
      have hfirst : j :: place ∈ (places e).map (i :: ·) ↔ i = j ∧ place ∈ e.places := by
        rw [List.mem_map]
        constructor
        · rintro ⟨p, hp, heq⟩
          injection heq with hj hplace
          exact ⟨hj, hplace ▸ hp⟩
        · rintro ⟨rfl, hplace⟩
          exact ⟨place, hplace, rfl⟩
      rw [placesFrom, List.mem_append, hfirst, ih]
      rcases Nat.lt_trichotomy i j with hlt | rfl | hgt
      · have hstep : j - i = j - (i + 1) + 1 := by omega
        rw [hstep, List.getElem?_cons_succ]
        simp only [Nat.ne_of_lt hlt, false_and, false_or, Nat.succ_le_of_lt hlt,
          Nat.le_of_lt hlt, true_and]
      · simp
      · simp [Nat.ne_of_gt hgt, Nat.not_le_of_gt hgt, Nat.not_le_of_gt (Nat.lt_succ_of_lt hgt)]

theorem nil_not_mem_placesFrom (i : Nat) (es : List (Expr ρ)) : [] ∉ placesFrom i es := by
  induction es generalizing i with
  | nil => exact List.not_mem_nil
  | cons e es ih => simp [placesFrom, ih]

/-- A place is listed exactly where a node stands in it. -/
theorem mem_places {e : Expr ρ} {place : List Nat} :
    place ∈ e.places ↔ ∃ d, e.nodeAt? place = some d := by
  induction place generalizing e with
  | nil => simp [places_eq, nodeAt?]
  | cons i place ih =>
      have hat : (∃ d, e.nodeAt? (i :: place) = some d) ↔
          ∃ child, e.children[i]? = some child ∧ ∃ d, child.nodeAt? place = some d := by
        simp only [nodeAt?, Option.bind_eq_some_iff]
        rw [exists_comm]
        simp only [exists_and_left]
      rw [places_eq, List.mem_cons, cons_mem_placesFrom, hat]
      simp [ih]

/-- The places are listed in their order, the place of a node before those under it
and those of a child before those of the next one. -/
theorem places_sorted (e : Expr ρ) : e.places.Pairwise (· < ·) := by
  have hfrom : ∀ (es : List (Expr ρ)) (i : Nat), (∀ e ∈ es, e.places.Pairwise (· < ·)) →
      (placesFrom i es).Pairwise (· < ·) := by
    intro es
    induction es with
    | nil => exact fun _ _ => .nil
    | cons e es ih =>
        intro i h
        rw [List.forall_mem_cons] at h
        rw [placesFrom, List.pairwise_append]
        refine ⟨?_, ih (i + 1) h.2, ?_⟩
        · exact h.1.map _ fun p q hlt => List.cons_lt_cons_self.2 hlt
        · intro p hp q hq
          obtain ⟨p, -, rfl⟩ := List.mem_map.1 hp
          cases q with
          | nil => exact absurd hq (nil_not_mem_placesFrom _ _)
          | cons j q =>
              have hlt : i < j := (cons_mem_placesFrom.1 hq).1
              exact List.cons_lt_cons_iff.2 (Or.inl hlt)
  induction e using byChildren with
  | node e ih =>
      rw [places_eq, List.pairwise_cons]
      refine ⟨fun p hp => ?_, hfrom _ 0 ih⟩
      cases p with
      | nil => exact absurd hp (nil_not_mem_placesFrom _ _)
      | cons i p => exact List.nil_lt_cons i p

/-- Recursion lists the node in each place. -/
theorem preorder_places (e : Expr ρ) : e.preorder.map some = e.places.map e.nodeAt? := by
  induction e using byChildren with
  | node e ih =>
      -- the children from a number on, among all of them
      have hfrom : ∀ (es : List (Expr ρ)) (i : Nat), e.children.drop i = es →
          (es.flatMap preorder).map some = (placesFrom i es).map e.nodeAt? := by
        intro es
        induction es with
        | nil => exact fun _ _ => rfl
        | cons child es ihes =>
            intro i hdrop
            have hchild : e.children[i]? = some child := by
              rw [← List.head?_drop, hdrop, List.head?_cons]
            have hrest : e.children.drop (i + 1) = es := by
              rw [← List.tail_drop, hdrop, List.tail_cons]
            have hat : (e.nodeAt? ∘ (i :: ·)) = child.nodeAt? := by
              funext place
              show e.children[i]?.bind _ = _
              rw [hchild, Option.bind_some]
            rw [placesFrom, List.flatMap_cons, List.map_append, List.map_append, List.map_map, hat,
              ih child (List.mem_of_getElem? hchild), ihes (i + 1) hrest]
      rw [preorder_eq, places_eq, List.map_cons, List.map_cons, hfrom e.children 0 rfl]
      rfl

-- ================================================================ names

/-- The first occurrences stand in the order in which they first occur, each once. -/
theorem firsts_sorted {α : Type _} [BEq α] [LawfulBEq α] (xs : List α) :
    (Text.firsts xs).Pairwise fun a b => xs.idxOf a < xs.idxOf b := by
  induction xs with
  | nil => exact .nil
  | cons x xs ih =>
      have hlater : ∀ a, a ≠ x → (x :: xs).idxOf a = xs.idxOf a + 1 := fun a ha =>
        List.idxOf_cons_ne xs ha.symm
      have hne : ∀ a ∈ (Text.firsts xs).filter (· != x), a ≠ x := by
        intro a ha
        exact bne_iff_ne.1 (List.mem_filter.1 ha).2
      rw [Text.firsts, List.pairwise_cons]
      constructor
      · intro a ha
        rw [List.idxOf_cons_self, hlater a (hne a ha)]
        exact Nat.succ_pos _
      · refine (ih.filter _).imp_of_mem fun ha hb hlt => ?_
        rw [hlater _ (hne _ ha), hlater _ (hne _ hb)]
        exact Nat.succ_lt_succ hlt

-- =============================================================== lookups

/-- What an evaluation has come to, after the names that it has looked up. -/
abbrev Noted := List String × Except EvaluationError Bool × Run

/-- The children of a connective one after the other, to the first that decides it. -/
def noteChildren (c : Connective) (note : Expr BoundRef → Run → Noted) :
    List (Expr BoundRef) → Run → Noted
  | [], s => ([], .ok !c.decisive, s)
  | e :: rest, s =>
      match note e s with
      | (names, .ok b, s') =>
          if b = c.decisive then (names, .ok b, s')
          else
            let others := noteChildren c note rest s'
            (names ++ others.1, others.2)
      | (names, .error err, s') => (names, .error err, s')

/-- The evaluation of an expression, with the names that it has looked up for the
expression itself. What a name comes to with so many levels is given. -/
def evaluateNoting (answer : String → Nat → Eval Bool) : Nat → Expr BoundRef → Run → Noted
  | 0, _, s => ([], .error .endless, s)
  | _ + 1, .rule r, s => ([], r.evaluate s)
  | levels + 1, .join c children, s => noteChildren c (evaluateNoting answer levels) children s
  | levels + 1, .not child, s =>
      match evaluateNoting answer levels child s with
      | (names, .ok b, s') => (names, .ok !b, s')
      | (names, .error err, s') => (names, .error err, s')
  | levels + 1, .named _ name, s => ([name], answer name levels s)
  | levels + 1, .inline _ child, s => evaluateNoting answer levels child s

/-- What a name comes to in a scope: the expression found under it is evaluated, with
lookups of its own. -/
def answerIn (scope : Scope) (name : String) (levels : Nat) : Eval Bool := fun s =>
  match scope name with
  | .ok e => evaluate scope levels e s
  | .error err => (.error err, s)

variable {scope : Scope} {answer answer' : String → Nat → Eval Bool} {c : Connective}
  {note note' : Expr BoundRef → Run → Noted} {es : List (Expr BoundRef)} {n : Nat} {s : Run}
  {name : String}

/-- Where noting changes nothing about the children it changes nothing about a
connective. -/
theorem noteChildren_snd (hnote : ∀ e s, (note e s).2 = evaluate scope n e s) :
    (noteChildren c note es s).2 = evaluate scope (n + 1) (.join c es) s := by
  induction es generalizing s with
  | nil => rw [noteChildren, evaluate_nil]
  | cons e es ih =>
      rw [noteChildren, evaluate_cons, ← hnote e s]
      rcases note e s with ⟨names, err | b, s'⟩
      · rfl
      · dsimp only
        rw [← ih]
        split
        · rfl
        · rfl

/-- Noting the names that are looked up changes nothing about an evaluation. -/
theorem evaluateNoting_snd (n : Nat) (e : Expr BoundRef) (s : Run) :
    (evaluateNoting (answerIn scope) n e s).2 = evaluate scope n e s := by
  induction n generalizing e s with
  | zero => rfl
  | succ n ih =>
      cases e with
      | rule r => rfl
      | join c es => exact noteChildren_snd ih
      | not e =>
          rw [evaluateNoting, evaluate_not, ← ih e s]
          rcases evaluateNoting (answerIn scope) n e s with ⟨names, err | b, s'⟩
          · rfl
          · rfl
      | named tag name => exact (evaluate_named tag name n).symm
      | inline tag e => exact ih e s

/-- Children whose evaluation depends on nothing but what is noted make a connective
of that kind. -/
theorem noteChildren_congr {P : String → Prop}
    (hnote : ∀ e s, (∀ name ∈ (note e s).1, P name) → note' e s = note e s)
    (h : ∀ name ∈ (noteChildren c note es s).1, P name) :
    noteChildren c note' es s = noteChildren c note es s := by
  induction es generalizing s with
  | nil => rfl
  | cons e es ih =>
      have he := hnote e s
      rw [noteChildren] at h ⊢
      rw [noteChildren]
      rcases hnoted : note e s with ⟨names, err | b, s'⟩
      · rw [hnoted] at h he
        rw [he h]
      · rw [hnoted] at h he
        dsimp only at h
        split at h
        next hb =>
          rw [he h]
          dsimp only
          rw [if_pos hb, if_pos hb]
        next hb =>
          obtain ⟨hfirst, hothers⟩ := List.forall_mem_append.1 h
          rw [he hfirst]
          dsimp only
          rw [if_neg hb, if_neg hb, ih hothers]

/-- The names that are noted are all that an evaluation depends on: what any other
name comes to makes no difference. -/
theorem evaluateNoting_congr (n : Nat) (e : Expr BoundRef) (s : Run)
    (h : ∀ name ∈ (evaluateNoting answer n e s).1, answer' name = answer name) :
    evaluateNoting answer' n e s = evaluateNoting answer n e s := by
  induction n generalizing e s with
  | zero => rfl
  | succ n ih =>
      cases e with
      | rule r => rfl
      | join c es => exact noteChildren_congr ih h
      | not e =>
          have he := ih e s
          rw [evaluateNoting] at h ⊢
          rw [evaluateNoting]
          rcases hnoted : evaluateNoting answer n e s with ⟨names, err | b, s'⟩
          · rw [hnoted] at h he
            rw [he h]
          · rw [hnoted] at h he
            rw [he h]
      | named tag name =>
          rw [evaluateNoting, evaluateNoting, h name (List.mem_singleton_self _)]
      | inline tag e => exact ih e s h

/-- What is noted for a connective is noted for one of its children. -/
theorem mem_noteChildren (h : name ∈ (noteChildren c note es s).1) :
    ∃ e ∈ es, ∃ s, name ∈ (note e s).1 := by
  induction es generalizing s with
  | nil => cases h
  | cons e es ih =>
      have hfirst : name ∈ (note e s).1 → ∃ d ∈ e :: es, ∃ s, name ∈ (note d s).1 :=
        fun h => ⟨e, List.mem_cons_self .., s, h⟩
      rw [noteChildren] at h
      rcases hnoted : note e s with ⟨names, err | b, s'⟩
      · rw [hnoted] at h hfirst
        exact hfirst h
      · rw [hnoted] at h hfirst
        dsimp only at h
        split at h
        next => exact hfirst h
        next =>
          rcases List.mem_append.1 h with h | h
          · exact hfirst h
          · obtain ⟨d, hd, hothers⟩ := ih h
            exact ⟨d, List.mem_cons_of_mem _ hd, hothers⟩

/-- An evaluation looks up no name for the expression itself but those that it refers
to. -/
theorem refers_of_noted (n : Nat) (e : Expr BoundRef) (s : Run)
    (h : name ∈ (evaluateNoting answer n e s).1) : e.Refers name := by
  induction n generalizing e s with
  | zero => cases h
  | succ n ih =>
      cases e with
      | rule r => cases h
      | join c es =>
          obtain ⟨e, he, s', h⟩ := mem_noteChildren h
          exact refers_join.2 ⟨e, he, ih e s' h⟩
      | not e =>
          refine refers_not.2 (ih e s ?_)
          rw [evaluateNoting] at h
          rcases hnoted : evaluateNoting answer n e s with ⟨names, err | b, s'⟩
          · rwa [hnoted] at h
          · rwa [hnoted] at h
      | named tag name => exact refers_named.2 (List.mem_singleton.1 h)
      | inline tag e => exact refers_inline.2 (ih e s h)

-- ================================================================ covered

/-- A walk lists the nodes of an expression as a recursion does, in each place the
node that stands there, once and in the order of the places. The references are the
names of the named nodes that it lists, each once and in the order in which they
first occur. Whatever the scope and the run, and however many levels there are, the
names that an evaluation looks up for the expression itself are among them, and what
any other name would come to makes no difference to it. -/
theorem walk_covers :
    (∀ {ρ : Type} (e : Expr ρ), e.walk = e.preorder
      ∧ e.walk.map some = e.places.map e.nodeAt? ∧ e.places.Pairwise (· < ·)
      ∧ (∀ place, place ∈ e.places ↔ ∃ d, e.nodeAt? place = some d)
      ∧ (∀ name, name ∈ e.references ↔ ∃ tag, .named tag name ∈ e.walk)
      ∧ e.references.Nodup
      ∧ e.references.Pairwise fun a b =>
        (e.walk.filterMap reference?).idxOf a < (e.walk.filterMap reference?).idxOf b)
    ∧ ∀ (e : Expr BoundRef) (scope : Scope) (n : Nat) (s : Run),
      (evaluateNoting (answerIn scope) n e s).2 = evaluate scope n e s
        ∧ (evaluateNoting (answerIn scope) n e s).1 ⊆ e.references
        ∧ ∀ answer, (∀ name ∈ (evaluateNoting (answerIn scope) n e s).1,
            answer name = answerIn scope name) →
          evaluateNoting answer n e s = evaluateNoting (answerIn scope) n e s := by
  refine ⟨fun e => ?_, fun e scope n s => ?_⟩
  · have hsorted := firsts_sorted (e.walk.filterMap reference?)
    refine ⟨walk_eq_preorder e, ?_, places_sorted e, fun _ => mem_places, fun name => ?_, ?_,
      hsorted⟩
    · rw [walk_eq_preorder, preorder_places]
    · rw [mem_references]
      exact exists_congr fun tag => mem_walk.symm
    · exact hsorted.imp fun hlt heq => absurd (heq ▸ hlt) (Nat.lt_irrefl _)
  · exact ⟨evaluateNoting_snd n e s, fun name h => mem_references.2 (refers_of_noted n e s h),
      fun answer h => evaluateNoting_congr n e s h⟩

/-- An expression that looks up its second name only where the first is false. -/
def guardedExpr : Expr BoundRef :=
  .join .all [.not (.named "expr" "open"),
    .inline "expr" (.join .any [.named "expr" "late", .named "expr" "open"])]

/-- A scope in which the first name is true and nothing else is known. -/
def openScope : Scope := fun name =>
  if name = "open" then .ok (.join .all []) else .error (.unknownExpression name none [])

/-- The first name is looked up and the second is not, so that it makes no difference
to find something under it. -/
theorem guarded_covered :
    (evaluateNoting (answerIn openScope) 4 guardedExpr ⟨[], []⟩).1 = ["open"]
      ∧ evaluateNoting (answerIn fun _ => .ok (.join .all [])) 4 guardedExpr ⟨[], []⟩
        = evaluateNoting (answerIn openScope) 4 guardedExpr ⟨[], []⟩ := by
  have hnoted : (evaluateNoting (answerIn openScope) 4 guardedExpr ⟨[], []⟩).1 = ["open"] := rfl
  refine ⟨hnoted, (walk_covers.2 guardedExpr openScope 4 ⟨[], []⟩).2.2 _ fun name hname => ?_⟩
  rw [hnoted] at hname
  rw [List.mem_singleton.1 hname]
  funext levels s
  cases levels <;> rfl

end Verdict.Expr
