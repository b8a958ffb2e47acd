/-
Two checks of one document, with a lower and with a higher limit. The limit
acts in two places: where a node of an expression is read, and where the
heights of the expressions are compared with it once all references are known.
In both a check with the lower limit is refused, or goes on like the one with
the higher limit; so the two run side by side up to the first refusal for
depth.

# Vocabulary

- `d.OfDepth`: something is nested too deep.

# Main statements

- `parseLevels_sameUnless`: reading with more levels ends alike, unless the
  fewer levels are used up.
- `check_sameUnless`: so does checking with a higher limit.
- `check_of_higher`: what is said of a document but for its depth is said of it
  under every higher limit.
-/
import Verdict.Proofs.Policy.Evaluation

namespace Verdict

open Verdict.Outcome (SameUnless)

/-- Something in a document is nested too deep. -/
def Defect.OfDepth (d : Defect) : Prop := d.name = "NestingDepthError"

variable {m m' : Int} {n n' : Nat} {s : Ruleset} {names rules : List String}

-- ============================================================== reading

namespace Expr

variable {raw : Value}

/-- Of one kind of node, the levels below decide. -/
theorem parseKind_sameUnless (h : ∀ raw,
    SameUnless Defect.OfDepth (parseLevels m n raw) (parseLevels m' n' raw))
    (d : Discriminant) :
    SameUnless Defect.OfDepth (parseKind m n raw d) (parseKind m' n' raw d) := by
  cases d with
  | connective c =>
      unfold parseKind
      dsimp only
      split
      next children _ => exact (SameUnless.mapM fun child _ => h child).map _
      next => exact .refl _
  | not =>
      unfold parseKind
      dsimp only
      split
      next => exact .refl _
      next =>
        split
        next => exact .refl _
        next => exact (h _).map _
  | rule => exact .refl _
  | expr =>
      unfold parseKind
      refine (SameUnless.refl (parseTag raw)).bind fun tag => ?_
      dsimp only
      split
      next => exact .refl _
      next => exact (h _).map _
      next => exact .refl _

/-- With more levels a node is read alike, unless the fewer are used up. -/
theorem parseLevels_sameUnless (hle : n ≤ n') (raw : Value) :
    SameUnless Defect.OfDepth (parseLevels m n raw) (parseLevels m' n' raw) := by
  induction n generalizing n' raw with
  | zero => exact .failure rfl
  | succ n ih =>
      obtain ⟨n', rfl⟩ := Nat.exists_eq_add_of_le' (Nat.le_of_add_left_le hle)
      have hbelow := fun raw => ih (Nat.le_of_succ_le_succ hle) raw
      cases hmap : raw.isMap with
      | false =>
          rw [parseLevels, parseLevels, hmap]
          exact .refl _
      | true =>
          -- only a node of one kind is looked into
          rcases hd : discriminants raw with _ | ⟨d, _ | ⟨d', ds⟩⟩
          · rw [parseLevels, parseLevels, hmap, hd]
            exact .refl _
          · rw [parseLevels_one hmap hd, parseLevels_one hmap hd]
            exact parseKind_sameUnless hbelow d
          · rw [parseLevels, parseLevels, hmap, hd]
            cases d <;> exact .refl _

theorem parse_sameUnless (hle : m ≤ m') (raw : Value) :
    SameUnless Defect.OfDepth (parse m raw) (parse m' raw) :=
  parseLevels_sameUnless (Int.toNat_le_toNat hle) raw

/-- Under any two limits a value is read as one expression. -/
theorem parse_unique {e e' : Expr RuleRef} (h : parse m raw = .ok e)
    (h' : parse m' raw = .ok e') : e = e' := by
  have hlow : ∀ {m m' : Int} {e e' : Expr RuleRef}, m ≤ m' → parse m raw = .ok e →
      parse m' raw = .ok e' → e = e' := by
    intro m m' e e' hle h h'
    have hsame := (parse_sameUnless hle raw).eq fun d hd => absurd (hd.symm.trans h)
      Outcome.error_ne_ok
    rw [h, h'] at hsame
    exact (Except.ok.inj hsame).symm
  rcases Int.le_total m m' with hle | hle
  · exact hlow hle h h'
  · exact (hlow hle h' h).symm

end Expr

-- ============================================================= checking

/-- The names of rules are looked up in the ruleset alone. -/
theorem checkRuleNames_limit (m m' : Int) (rules : List String) :
    Checker.checkRuleNames ⟨s, m⟩ rules = Checker.checkRuleNames ⟨s, m'⟩ rules := by
  induction rules with
  | nil => rfl
  | cons rule rules ih => rw [Checker.checkRuleNames, Checker.checkRuleNames, ih]

theorem checkDocument_limit (m m' : Int) (document : Value) :
    Checker.checkDocument ⟨s, m⟩ document = Checker.checkDocument ⟨s, m'⟩ document := by
  unfold Checker.checkDocument
  simp only [checkRuleNames_limit m m']

/-- Nodes that were read are checked without regard to the limit. -/
theorem checkExpr_limit (m m' : Int) (e : Expr RuleRef) :
    Checker.checkExpr ⟨s, m⟩ names rules e = Checker.checkExpr ⟨s, m'⟩ names rules e := by
  induction e using Expr.induct with
  | join k es ih =>
      have hall : ∀ es : List (Expr RuleRef), (∀ e ∈ es, Checker.checkExpr ⟨s, m⟩ names rules e
          = Checker.checkExpr ⟨s, m'⟩ names rules e) →
          Checker.checkExprs ⟨s, m⟩ names rules es
            = Checker.checkExprs ⟨s, m'⟩ names rules es := by
        intro es hes
        induction es with
        | nil => rfl
        | cons e es ih =>
            rw [List.forall_mem_cons] at hes
            rw [Checker.checkExprs, Checker.checkExprs, hes.1, ih hes.2]
      rcases es with _ | ⟨first, _ | ⟨second, rest⟩⟩
      · rfl
      · rw [Checker.checkExpr, Checker.checkExpr, ih first (List.mem_singleton_self first)]
      · rw [List.forall_mem_cons, List.forall_mem_cons] at ih
        rw [Checker.checkExpr, Checker.checkExpr, ih.1, ih.2.1, hall rest ih.2.2]
  | not e ih => rw [Checker.checkExpr, Checker.checkExpr, ih]
  | rule ref => rfl
  | named tag name => rfl
  | inline tag e ih => rw [Checker.checkExpr, Checker.checkExpr, ih]

theorem checkNamed_sameUnless (hle : m ≤ m') (raws : Table Value) :
    SameUnless Defect.OfDepth (Checker.checkNamed ⟨s, m⟩ names rules raws)
      (Checker.checkNamed ⟨s, m'⟩ names rules raws) := by
  induction raws with
  | nil => exact .refl _
  | cons raw raws ih =>
      obtain ⟨name, raw⟩ := raw
      rw [Checker.checkNamed, Checker.checkNamed]
      refine (Expr.parse_sameUnless hle raw).bind fun e => ?_
      rw [checkExpr_limit m m']
      exact (SameUnless.refl _).bind fun _ => ih.bind fun es => .refl _

/-- Depths below the lower limit are below the higher one. -/
theorem checkDepths_sameUnless (hle : m ≤ m') (depths : Table Nat) :
    SameUnless Defect.OfDepth (Checker.checkDepths ⟨s, m⟩ depths)
      (Checker.checkDepths ⟨s, m'⟩ depths) := by
  induction depths with
  | nil => exact .refl _
  | cons d depths ih =>
      obtain ⟨name, depth⟩ := d
      rw [Checker.checkDepths, Checker.checkDepths]
      by_cases h : m < depth
      · rw [if_pos h]
        exact .failure rfl
      · have h' : ¬ m' < depth := by omega
        rw [if_neg h, if_neg h']
        exact ih

theorem checkReferences_sameUnless (hle : m ≤ m') (es : Expressions RuleRef) :
    SameUnless Defect.OfDepth (Checker.checkReferences ⟨s, m⟩ es)
      (Checker.checkReferences ⟨s, m'⟩ es) := by
  unfold Checker.checkReferences
  refine (SameUnless.refl _).bind fun order => ?_
  split
  next depths _ => exact checkDepths_sameUnless hle depths
  next => exact .refl _

/-- With a higher limit a document is checked alike, unless it is refused for
its depth. -/
theorem check_sameUnless (hle : m ≤ m') (document : Value) :
    SameUnless Defect.OfDepth (Checker.check ⟨s, m⟩ document)
      (Checker.check ⟨s, m'⟩ document) := by
  unfold Checker.check
  rw [checkDocument_limit m m']
  refine (SameUnless.refl _).bind fun parts => ?_
  refine (checkNamed_sameUnless hle parts.2).bind fun es => ?_
  exact (checkReferences_sameUnless hle es).bind fun _ => .refl _

/-- Under a higher limit nothing changes but what was refused for its depth. A
document that ends otherwise, as a policy or with another defect, ends so under
the higher limit; what is accepted stays accepted; and what is refused for its
depth under the higher limit is refused for it under the lower. -/
theorem check_of_higher (hle : m ≤ m') (document : Value) :
    ((∀ d, Checker.check ⟨s, m⟩ document = .error d → ¬ d.OfDepth) →
        Checker.check ⟨s, m'⟩ document = Checker.check ⟨s, m⟩ document)
      ∧ (∀ p, Checker.check ⟨s, m⟩ document = .ok p → Checker.check ⟨s, m'⟩ document = .ok p)
      ∧ ∀ d', Checker.check ⟨s, m'⟩ document = .error d' → d'.OfDepth →
        ∃ d, Checker.check ⟨s, m⟩ document = .error d ∧ d.OfDepth := by
  have hsame := check_sameUnless (s := s) hle document
  refine ⟨hsame.eq, fun p hp => ?_, fun d' hd' hdepth => ?_⟩
  · rw [hsame.eq fun d hd => absurd (hd.symm.trans hp) Outcome.error_ne_ok, hp]
  · rcases hsame with h | h
    · exact h
    · exact ⟨d', h ▸ hd', hdepth⟩

-- ============================================================= a document

/-- The policy that the document with two expressions is checked to be. -/
def reversedPolicy : Policy :=
  ⟨"Fields", ["Positive"], [("deny", .not (.named "expr" "main")), ("main", .rule fieldRef)]⟩

/-- Three levels are enough for that document, so more are; two are not, so one
is not. -/
theorem reversed_of_higher :
    (1 : Int) ≤ 2 ∧ (3 : Int) ≤ 64
      ∧ (∃ d, Checker.check ⟨(fieldChecker "x").ruleset, 1⟩ reversedDocument = .error d
        ∧ d.OfDepth)
      ∧ Checker.check ⟨(fieldChecker "x").ruleset, 2⟩ reversedDocument
        = .error (.referencesTooDeep "deny" 3 2)
      ∧ Checker.check ⟨(fieldChecker "x").ruleset, 3⟩ reversedDocument = .ok reversedPolicy
      ∧ Checker.check ⟨(fieldChecker "x").ruleset, 64⟩ reversedDocument
        = .ok reversedPolicy := by
  have htwo : Checker.check ⟨(fieldChecker "x").ruleset, 2⟩ reversedDocument
      = .error (.referencesTooDeep "deny" 3 2) := by with_unfolding_all rfl
  have hthree : Checker.check ⟨(fieldChecker "x").ruleset, 3⟩ reversedDocument
      = .ok reversedPolicy := by with_unfolding_all rfl
  have hlow : (1 : Int) ≤ 2 := by decide
  have hhigh : (3 : Int) ≤ 64 := by decide
  refine ⟨hlow, hhigh, ?_, htwo, hthree, ?_⟩
  · exact (check_of_higher hlow reversedDocument).2.2 _ htwo rfl
  · exact (check_of_higher hhigh reversedDocument).2.1 _ hthree

end Verdict
