/-
What reading a node looks at. A value that is read is a mapping with the
mark of one kind, and what stands under the keys of that kind is read in
turn. This is said of every value, whatever it is made of: where a value may
hold itself it is the outermost brackets that are looked at, level by level.

# Main statements

- `parseLevels_succ_eq_ok`: with a level left a value is read by the one
  mark that it has.
- `parseKind_connective_eq_ok`, `parseKind_not_eq_ok`,
  `parseRule_eq_ok`, `parseKind_expr_eq_ok`: what each kind asks for.
-/
import Verdict.Expr.Parse
import Verdict.Proofs.Value.Document

namespace Verdict

namespace Expr

variable {limit : Int} {n : Nat} {raw : Value} {e : Expr RuleRef} {d : Discriminant}

-- =============================================================== kinds

/-- What a mapping with the mark of one kind is read as. -/
def parseKind (limit : Int) (levels : Nat) (raw : Value) :
    Discriminant → Except Defect (Expr RuleRef)
  | .connective c =>
      let found := (raw.get? c.key).getD .null
      match found.unrolled with
      | .list children => (children.mapM (parseLevels limit levels)).map (.join c)
      | _ => .error (.childrenNotList c found)
  | .not =>
      let child := (raw.get? "Not").getD .null
      if !child.truthy then .error (.emptyNot raw.unrolled)
      else
        match child.unrolled with
        | .list _ => .error (.listUnderNot child)
        | _ => (parseLevels limit levels child).map .not
  | .rule => (parseRule raw).map .rule
  | .expr => do
      let tag ← parseTag raw
      let found := (raw.get? "expr").getD .null
      match found.unrolled with
      | .str name => pure (.named tag name)
      | .map _ => (parseLevels limit levels found).map (.inline tag)
      | _ => .error (.badPayload found)

theorem parseLevels_one (hmap : raw.isMap = true) (hd : discriminants raw = [d]) :
    parseLevels limit (n + 1) raw = parseKind limit n raw d := by
  rw [parseLevels, hmap, hd]
  cases d <;> rfl

/-- With a level left a value is read by the one mark that it has. -/
theorem parseLevels_succ_eq_ok :
    parseLevels limit (n + 1) raw = .ok e ↔
      raw.isMap = true ∧ ∃ d, discriminants raw = [d] ∧ parseKind limit n raw d = .ok e := by
  constructor
  · intro h
    have hmap : raw.isMap = true := by
      cases hmap : raw.isMap with
      | true => rfl
      | false =>
          rw [parseLevels, hmap] at h
          cases h
    have hone : ∃ d, discriminants raw = [d] := by
      rw [parseLevels, hmap] at h
      rcases hd : discriminants raw with _ | ⟨d, _ | ⟨d', ds⟩⟩
      · rw [hd] at h
        cases h
      · exact ⟨d, rfl⟩
      · rw [hd] at h
        cases d <;> cases h
    obtain ⟨d, hd⟩ := hone
    rw [parseLevels_one hmap hd] at h
    exact ⟨hmap, d, hd, h⟩
  · intro h
    obtain ⟨hmap, d, hd, h⟩ := h
    rw [parseLevels_one hmap hd]
    exact h

/-- A value has the marks that are found in it. -/
theorem hasDiscriminant_of_eq (hd : discriminants raw = [d]) : hasDiscriminant raw d = true := by
  have hmem : d ∈ discriminants raw := by
    rw [hd]
    exact List.mem_singleton_self d
  unfold discriminants at hmem
  exact (List.mem_filter.1 hmem).2

/-- What is read is a mapping, and not an empty one. -/
theorem unrolled_of_parseLevels (h : parseLevels limit n raw = .ok e) :
    ∃ entry entries, raw.unrolled = .map (entry :: entries) := by
  cases n with
  | zero => cases h
  | succ n =>
      obtain ⟨-, d, hd, -⟩ := parseLevels_succ_eq_ok.1 h
      have hmark := hasDiscriminant_of_eq hd
      have hkey : ∃ key v, raw.get? key = some v := by
        cases d with
        | connective c => exact ⟨_, Option.isSome_iff_exists.1 hmark⟩
        | not => exact ⟨_, Option.isSome_iff_exists.1 hmark⟩
        | expr => exact ⟨_, Option.isSome_iff_exists.1 hmark⟩
        | rule =>
            obtain ⟨v, hv, -⟩ := Option.bind_eq_some_iff.1 (of_decide_eq_true hmark)
            exact ⟨_, v, hv⟩
      obtain ⟨key, v, hv⟩ := hkey
      exact Value.unrolled_of_get? hv

theorem parseKind_connective_eq_ok {c : Connective} :
    parseKind limit n raw (.connective c) = .ok e ↔
      ∃ found items es, raw.get? c.key = some found ∧ found.unrolled = .list items
        ∧ items.mapM (parseLevels limit n) = .ok es ∧ e = .join c es := by
  unfold parseKind
  dsimp only
  constructor
  · intro h
    split at h
    next items hfound =>
      obtain ⟨es, hes, rfl⟩ := Outcome.map_eq_ok.1 h
      exact ⟨_, items, es, Value.get?_of_getD rfl (by simp [hfound]), hfound, hes, rfl⟩
    next => cases h
  · intro h
    obtain ⟨found, items, es, hfound, hitems, hes, rfl⟩ := h
    rw [hfound, Option.getD_some, hitems]
    exact Outcome.map_eq_ok.2 ⟨es, hes, rfl⟩

theorem parseKind_not_eq_ok :
    parseKind limit n raw .not = .ok e ↔
      ∃ child e', raw.get? "Not" = some child ∧ parseLevels limit n child = .ok e'
        ∧ e = .not e' := by
  unfold parseKind
  dsimp only
  constructor
  · intro h
    split at h
    next => cases h
    next =>
      split at h
      next => cases h
      next =>
        obtain ⟨e', he, rfl⟩ := Outcome.map_eq_ok.1 h
        obtain ⟨entry, entries, hmap⟩ := unrolled_of_parseLevels he
        exact ⟨_, e', Value.get?_of_getD rfl (by simp [hmap]), he, rfl⟩
  · intro h
    obtain ⟨child, e', hchild, he, rfl⟩ := h
    obtain ⟨entry, entries, hmap⟩ := unrolled_of_parseLevels he
    have htruthy : child.truthy = true := by
      unfold Value.truthy
      rw [hmap]
      rfl
    rw [hchild, Option.getD_some, htruthy, hmap]
    exact Outcome.map_eq_ok.2 ⟨e', he, rfl⟩

theorem parseKind_expr_eq_ok :
    parseKind limit n raw .expr = .ok e ↔ ∃ tag, parseTag raw = .ok tag
      ∧ ((∃ name, raw.get? "expr" = some (.str name) ∧ e = .named tag name)
        ∨ ∃ child e', raw.get? "expr" = some child ∧ parseLevels limit n child = .ok e'
          ∧ e = .inline tag e') := by
  unfold parseKind
  dsimp only
  rw [Outcome.bind_eq_ok]
  refine exists_congr fun tag => and_congr_right fun _ => ?_
  constructor
  · intro h
    split at h
    next name hfound =>
      injection h with h
      have hget := Value.get?_of_getD rfl (by rw [hfound]; simp)
      rw [Value.unrolled_eq_str.1 hfound] at hget
      exact Or.inl ⟨name, hget, h.symm⟩
    next entries hfound =>
      obtain ⟨e', he, rfl⟩ := Outcome.map_eq_ok.1 h
      exact Or.inr ⟨_, e', Value.get?_of_getD rfl (by simp [hfound]), he, rfl⟩
    next => cases h
  · intro h
    rcases h with ⟨name, hname, rfl⟩ | ⟨child, e', hchild, he, rfl⟩
    · rw [hname]
      rfl
    · obtain ⟨entry, entries, hmap⟩ := unrolled_of_parseLevels he
      rw [hchild, Option.getD_some, hmap]
      exact Outcome.map_eq_ok.2 ⟨e', he, rfl⟩

-- =============================================================== leaves

theorem parseField_eq_ok {rule : String} {entry : FieldEntry} :
    parseField rule raw = .ok entry ↔ raw.get? "name" = some (.str entry.name)
      ∧ raw.get? "type" = some (.str entry.type) ∧ raw.get? "value" = some entry.value := by
  unfold parseField
  split
  next name type v hname htype hvalue =>
    rw [hname, htype, hvalue]
    simp only [Except.ok.injEq, Option.some.injEq, Value.str.injEq]
    constructor
    · intro heq
      subst heq
      exact ⟨rfl, rfl, rfl⟩
    · intro h
      obtain ⟨rfl, rfl, rfl⟩ := h
      rfl
  next hno =>
    constructor
    · intro h
      cases h
    · intro h
      obtain ⟨hname, htype, hvalue⟩ := h
      exact absurd hvalue (hno _ _ _ hname htype)

theorem parseTag_eq_ok {tag : String} :
    parseTag raw = .ok tag ↔
      (raw.get? "type" = none ∧ tag = "expr") ∨ raw.get? "type" = some (.str tag) := by
  unfold parseTag
  split
  next hnone => simp [hnone, eq_comm]
  next s hs => simp [hs]
  next v hno hv =>
    rw [hv]
    constructor
    · intro h
      cases h
    · intro h
      rcases h with ⟨h, -⟩ | h
      · cases h
      · exact absurd h (by simpa using hno tag)

theorem parseRule_eq_ok {ref : RuleRef} :
    parseRule raw = .ok ref ↔ raw.get? "rule" = some (.str ref.rule) ∧ ref.rule ≠ ""
      ∧ ((raw.get? "fields" = none ∧ ref.fields = [])
        ∨ ∃ found items, raw.get? "fields" = some found ∧ found.unrolled = .list items
          ∧ items.mapM (parseField ref.rule) = .ok ref.fields) := by
  unfold parseRule
  split
  next name hname =>
    rw [hname, Option.some.injEq, Value.str.injEq]
    split
    next hempty =>
      have hname' : name = "" := String.isEmpty_iff.1 hempty
      constructor
      · intro h
        cases h
      · intro h
        obtain ⟨heq, hne, -⟩ := h
        exact absurd (heq.symm.trans hname') hne
    next hempty =>
      have hne : name ≠ "" := fun h => hempty (String.isEmpty_iff.2 h)
      split
      next hnone =>
        rw [Except.ok.injEq]
        constructor
        · intro heq
          subst heq
          exact ⟨rfl, hne, Or.inl ⟨hnone, rfl⟩⟩
        · intro h
          obtain ⟨rfl, -, ⟨-, hnil⟩ | ⟨found, items, hfound, -⟩⟩ := h
          · rw [← hnil]
          · rw [hnone] at hfound
            cases hfound
      next v hv =>
        simp only [hv, Option.some.injEq, reduceCtorEq, false_and, false_or,
          exists_and_left, exists_eq_left']
        split
        next items hitems =>
          rw [Outcome.map_eq_ok]
          constructor
          · intro h
            obtain ⟨entries, hentries, rfl⟩ := h
            exact ⟨rfl, hne, items, hitems, hentries⟩
          · intro h
            obtain ⟨rfl, -, items', hitems', hentries⟩ := h
            rw [hitems] at hitems'
            injection hitems' with heq
            subst heq
            exact ⟨_, hentries, rfl⟩
        next hno =>
          constructor
          · intro h
            cases h
          · intro h
            obtain ⟨-, -, items, hitems, -⟩ := h
            exact absurd hitems (hno items)
  next hno =>
    constructor
    · intro h
      cases h
    · intro h
      obtain ⟨hname, -⟩ := h
      exact absurd hname (hno _)

end Expr

end Verdict
