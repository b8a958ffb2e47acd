/-
Which texts do not suit a kind. A scalar under a tag is read as the kind that
the tag asks for, whatever its text is. Most texts that are no value of the
kind are refused as such; those listed here end in the failure of a tag.

# Vocabulary

- `k.Unfit text f`: the text does not suit the kind, and the fault is `f`.

# Main statements

- `textValue_eq_tag`: reading a text as a kind ends in the failure of a tag
  exactly where the text does not suit the kind.
-/
import Mathlib.Algebra.Ring.Int.Defs
import Verdict.Proofs.Outcome
import Verdict.Proofs.Pairs
import Verdict.Yaml.Node.Value

namespace Verdict.Yaml

open Outcome

namespace Number

/-- The parts of a number to the base sixty, without its sign. -/
def sixtieths (text : List Char) : List (List Char) :=
  Text.pieces ':' (signed ((withoutGaps text).map Char.toLower)).2

/-- The greatest number of parts to the base sixty of a binary64 number: the
base of one more would be beyond all such numbers. -/
def greatestPartCount : Nat := 174

end Number

/-- A text does not suit a kind, in a way that ends in the failure of a tag. -/
inductive Kind.Unfit : Kind → List Char → TagFault → Prop where
  /-- A truth value is none of the known words. -/
  | noWord {text : List Char}
      (h : ∀ w ∈ truthWords, w.1.toList ≠ text.map Char.toLower) : Unfit .bool text .noWord
  /-- A time is not written as one. -/
  | noParts {text : List Char} (h : TimeParts.ofText? text = none) : Unfit .time text .noParts
  /-- A whole number has nothing, or nothing but a sign, beside underscores. -/
  | noDigit {text : List Char} (h : (Number.signed (Number.withoutGaps text)).2 = []) :
      Unfit .int text .noCharacter
  /-- A binary64 number has nothing beside underscores. -/
  | noCharacter {text : List Char} (h : Number.withoutGaps text = []) :
      Unfit .float text .noCharacter
  /-- A binary64 number has too many parts to the base sixty, each of them a
  number. -/
  | manyParts {text : List Char}
      (hmany : Number.greatestPartCount < (Number.sixtieths text).length)
      (hparts : ∀ part ∈ Number.sixtieths text, ∃ x, Number.floatOfText part = .ok x) :
      Unfit .float text .beyondRange

/-- What fails for a value that does not fit alone never fails for a tag. -/
theorem ne_tag_of_ends {α : Type} {x : Except Failure α}
    (h : Ends (· = .badValue) (fun _ => True) x) (f : TagFault) : x ≠ .error (.tag f) := by
  rintro rfl
  cases h

-- ============================================================ numbers

namespace Number

theorem ofText_ends (base : Nat) (cs : List Char) :
    Ends (· = .badValue) (fun _ => True) (ofText base cs) := by
  unfold ofText
  dsimp only
  split
  · rfl
  · split
    · rfl
    · trivial

theorem magnitude_ends {cs : List Char} (h : cs ≠ []) :
    Ends (· = .badValue) (fun _ => True) (magnitude cs) := by
  unfold magnitude
  refine .ite (fun _ => trivial) fun _ => ?_
  refine .ite (fun _ => ofText_ends ..) fun _ => ?_
  refine .ite (fun _ => ofText_ends ..) fun _ => ?_
  refine .ite (fun hempty => absurd (List.isEmpty_iff.1 hempty) h) fun _ => ?_
  refine .ite (fun _ => ofText_ends ..) fun _ => ?_
  refine .ite (fun _ => ?_) fun _ => ofText_ends ..
  exact (Ends.mapM fun part _ => ofText_ends 10 part).bind fun _ _ => trivial

/-- A whole number fails for a tag exactly where nothing, or nothing but a sign,
is left of its text. -/
theorem wholeNumber_eq_tag {text : List Char} {f : TagFault} :
    wholeNumber text = .error (.tag f)
      ↔ (signed (withoutGaps text)).2 = [] ∧ f = .noCharacter := by
  have hfault : ∀ g, Except.error (ε := Failure) (α := Int) (.tag .noCharacter) = .error (.tag g)
      ↔ g = .noCharacter := by
    intro g
    simp [eq_comm]
  unfold wholeNumber
  dsimp only
  split
  next hempty =>
    rw [List.isEmpty_iff.1 hempty]
    exact (hfault f).trans (and_iff_right rfl).symm
  next =>
    by_cases hdigits : (signed (withoutGaps text)).2 = []
    · rw [hdigits]
      exact (hfault f).trans (and_iff_right rfl).symm
    · refine iff_of_false ?_ fun h => hdigits h.1
      refine ne_tag_of_ends ?_ f
      exact (magnitude_ends hdigits).bind fun _ _ => trivial

-- ===================================================== binary64 numbers

theorem floatOfText_ends (cs : List Char) :
    Ends (· = .badValue) (fun _ => True) (floatOfText cs) := by
  unfold floatOfText
  dsimp only
  refine .ite (fun _ => trivial) fun _ => .ite (fun _ => trivial) fun _ => ?_
  split
  · refine .ite (fun _ => rfl) fun _ => trivial
  · rfl

theorem ofInt_pow_ne_infinite :
    ∀ i < greatestPartCount, ∀ s, Binary64.ofInt (60 ^ i) ≠ .infinite s := by
  decide +kernel

theorem ofInt_pow_greatest : Binary64.ofInt (60 ^ greatestPartCount) = .infinite false := by
  decide +kernel

/-- Adding up parts fails exactly where a part has too great a base. -/
theorem sumParts_eq_error {parts : List Binary64} {sum : Binary64} {i : Nat} {e : Failure}
    (hi : i ≤ greatestPartCount) :
    sumParts sum (60 ^ i) parts = .error e
      ↔ e = .tag .beyondRange ∧ greatestPartCount < i + parts.length := by
  induction parts generalizing sum i with
  | nil =>
      refine iff_of_false error_ne_ok.symm fun h => ?_
      have hlt : greatestPartCount < i + 0 := h.2
      omega
  | cons part parts ih =>
      unfold sumParts
      rcases Nat.lt_or_eq_of_le hi with hlt | rfl
      · split
        next s hs => exact absurd hs (ofInt_pow_ne_infinite i hlt s)
        next =>
          rw [← Int.pow_succ, ih hlt, List.length_cons]
          refine and_congr_right fun _ => ?_
          omega
      · rw [ofInt_pow_greatest, List.length_cons]
        refine Iff.trans ?_ (and_iff_left (by omega)).symm
        simp [eq_comm]

theorem pieces_of_not_mem {mark : Char} {cs : List Char} (h : mark ∉ cs) :
    Text.pieces mark cs = [cs] := by
  induction cs with
  | nil => rfl
  | cons c cs ih =>
      rw [List.mem_cons, not_or] at h
      rw [Text.pieces, ih h.2]
      exact if_neg (Ne.symm h.1)

/-- A text without a colon is no number to the base sixty. -/
theorem float_ends {text : List Char} (hsome : withoutGaps text ≠ [])
    (hcolon : ':' ∉ (signed ((withoutGaps text).map Char.toLower)).2) :
    Ends (· = .badValue) (fun _ => True) (float text) := by
  unfold float
  dsimp only
  rw [if_neg (by simpa using hsome)]
  refine .ite (fun _ => trivial) fun _ => .ite (fun _ => trivial) fun _ => ?_
  rw [if_neg (by simpa using hcolon)]
  exact (floatOfText_ends _).bind fun _ _ => trivial

/-- What has a colon has more than gaps. -/
theorem withoutGaps_ne_nil {text : List Char}
    (hcolon : ':' ∈ (signed ((withoutGaps text).map Char.toLower)).2) :
    withoutGaps text ≠ [] := by
  intro hempty
  rw [hempty] at hcolon
  cases hcolon

/-- A text with a colon is a number to the base sixty. -/
theorem float_of_colon {text : List Char}
    (hcolon : ':' ∈ (signed ((withoutGaps text).map Char.toLower)).2) :
    float text = (do
      let parts ← (sixtieths text).mapM floatOfText
      let x ← sumParts (.zero false) 1 parts.reverse
      pure (if (signed ((withoutGaps text).map Char.toLower)).1 then x.negate else x)) := by
  have hne : ∀ word : List Char, ':' ∉ word →
      (signed ((withoutGaps text).map Char.toLower)).2 ≠ word :=
    fun word hword heq => hword (heq ▸ hcolon)
  have hsome := withoutGaps_ne_nil hcolon
  unfold float
  dsimp only
  rw [if_neg (by simpa using hsome), if_neg (hne _ (by decide)), if_neg (hne _ (by decide)),
    if_pos (by simpa using hcolon)]
  rfl

/-- A number to the base sixty fails for a tag exactly where all its parts are
numbers, and they are too many. -/
theorem sixtieths_eq_tag {text : List Char} {f : TagFault}
    (hcolon : ':' ∈ (signed ((withoutGaps text).map Char.toLower)).2) :
    float text = .error (.tag f)
      ↔ f = .beyondRange ∧ greatestPartCount < (sixtieths text).length
        ∧ ∀ part ∈ sixtieths text, ∃ x, floatOfText part = .ok x := by
  rw [float_of_colon hcolon]
  cases hparts : (sixtieths text).mapM floatOfText with
  | error e =>
      have hends : Ends (· = .badValue) (fun _ => True) ((sixtieths text).mapM floatOfText) :=
        (Ends.mapM fun part _ => floatOfText_ends part).imp (fun _ h => h) fun _ _ => trivial
      rw [hparts] at hends
      refine iff_of_false ?_ fun h => ?_
      · rw [show e = .badValue from hends]
        nofun
      · obtain ⟨xs, hxs⟩ := Pairs.exists_of_forall h.2.2
        exact error_ne_ok (hparts.symm.trans (mapM_eq_ok.2 hxs))
  | ok xs =>
      have hall := mapM_eq_ok.1 hparts
      have hsum : sumParts (.zero false) 1 xs.reverse = .error (.tag f)
          ↔ .tag f = Failure.tag .beyondRange ∧ greatestPartCount < (sixtieths text).length := by
        have hsum : sumParts (.zero false) (60 ^ 0) xs.reverse = .error (.tag f) ↔ _ :=
          sumParts_eq_error (Nat.zero_le greatestPartCount)
        rwa [Int.pow_zero, List.length_reverse, Nat.zero_add, ← hall.length_eq] at hsum
      have hnumbers : ∀ part ∈ sixtieths text, ∃ x, floatOfText part = .ok x := by
        intro part hpart
        obtain ⟨x, -, hx⟩ := Pairs.of_mem_left hall hpart
        exact ⟨x, hx⟩
      rw [and_iff_left hnumbers]
      show (do
        let x ← sumParts (.zero false) 1 xs.reverse
        pure _) = _ ↔ _
      rw [bind_pure_comp]
      refine map_eq_error.trans (hsum.trans (and_congr_left fun _ => ?_))
      exact ⟨fun h => Failure.tag.inj h, fun h => congrArg Failure.tag h⟩

/-- A binary64 number fails for a tag exactly where nothing is left of its text,
or it has too many parts to the base sixty. -/
theorem float_eq_tag {text : List Char} {f : TagFault} :
    float text = .error (.tag f) ↔ withoutGaps text = [] ∧ f = .noCharacter
      ∨ f = .beyondRange ∧ greatestPartCount < (sixtieths text).length
        ∧ ∀ part ∈ sixtieths text, ∃ x, floatOfText part = .ok x := by
  by_cases hcolon : ':' ∈ (signed ((withoutGaps text).map Char.toLower)).2
  · rw [sixtieths_eq_tag hcolon, or_iff_right fun h => withoutGaps_ne_nil hcolon h.1]
  · have hone : ¬ greatestPartCount < (sixtieths text).length := by
      unfold sixtieths
      rw [pieces_of_not_mem hcolon, List.length_singleton]
      decide
    rw [or_iff_left fun h => hone h.2.1]
    by_cases hempty : withoutGaps text = []
    · have hfloat : float text = .error (.tag .noCharacter) := by
        unfold float
        rw [hempty]
        rfl
      rw [hfloat, and_iff_right hempty]
      simp [eq_comm]
    · exact iff_of_false (ne_tag_of_ends (float_ends hempty hcolon) f) fun h => hempty h.1

end Number

-- ============================================================== words

theorem truthValue_eq_tag {text : List Char} {f : TagFault} :
    Make.truthValue text = .error (.tag f)
      ↔ (∀ w ∈ Kind.truthWords, w.1.toList ≠ text.map Char.toLower) ∧ f = .noWord := by
  unfold Make.truthValue
  dsimp only
  split
  next b hfind =>
    refine iff_of_false error_ne_ok.symm fun h => ?_
    exact h.1 _ (List.mem_of_find?_eq_some hfind) (by simpa using List.find?_some hfind)
  next hfind =>
    have hnone : ∀ w ∈ Kind.truthWords, w.1.toList ≠ text.map Char.toLower := by
      simpa using List.find?_eq_none.1 hfind
    rw [and_iff_right hnone]
    simp [eq_comm]

theorem bytesValue_ends (text : List Char) :
    Ends (· = .malformed) (fun _ => True) (Make.bytesValue text) := by
  unfold Make.bytesValue
  refine .ite (fun _ => ?_) fun _ => rfl
  split
  · trivial
  · rfl

-- ============================================================== times

theorem TimeParts.build_ends (parts : TimeParts) :
    Ends (· = .badValue) (fun _ => True) parts.build := by
  unfold build
  split
  · exact .ite (fun _ => trivial) fun _ => rfl
  · exact .ite (fun _ => trivial) fun _ => rfl

theorem timeValue_eq_tag {text : List Char} {f : TagFault} :
    Make.timeValue text = .error (.tag f)
      ↔ TimeParts.ofText? text = none ∧ f = .noParts := by
  unfold Make.timeValue
  split
  next hnone =>
    rw [and_iff_right hnone]
    simp [eq_comm]
  next parts hsome =>
    refine iff_of_false ?_ fun h => ?_
    · exact fun h => ne_tag_of_ends parts.build_ends f (map_eq_error.1 h)
    · rw [hsome] at h
      cases h.1

-- ============================================================= values

/-- Reading a text as a kind fails for a tag exactly where the text does not suit
the kind. -/
theorem textValue_eq_tag {kind : Kind} {text : List Char} {f : TagFault} :
    Make.textValue kind text = .error (.tag f) ↔ kind.Unfit text f := by
  constructor
  · intro h
    cases kind with
    | bool =>
        obtain ⟨hword, rfl⟩ := truthValue_eq_tag.1 h
        exact .noWord hword
    | int =>
        obtain ⟨hdigit, rfl⟩ := Number.wholeNumber_eq_tag.1 (map_eq_error.1 h)
        exact .noDigit hdigit
    | float =>
        obtain ⟨hempty, rfl⟩ | ⟨rfl, hmany, hparts⟩ := Number.float_eq_tag.1 (map_eq_error.1 h)
        · exact .noCharacter hempty
        · exact .manyParts hmany hparts
    | time =>
        obtain ⟨hparts, rfl⟩ := timeValue_eq_tag.1 h
        exact .noParts hparts
    | bytes =>
        have hends := bytesValue_ends text
        rw [show Make.bytesValue text = .error (.tag f) from h] at hends
        cases hends
    | null => cases h
    | text => cases h
    | orderedMap => cases h
    | pairs => cases h
    | set => cases h
    | list => cases h
    | mapping => cases h
    | merge => cases h
    | own => cases h
    | unknown => cases h
  · intro h
    cases h with
    | noWord h => exact truthValue_eq_tag.2 ⟨h, rfl⟩
    | noParts h => exact timeValue_eq_tag.2 ⟨h, rfl⟩
    | noDigit h => exact map_eq_error.2 (Number.wholeNumber_eq_tag.2 ⟨h, rfl⟩)
    | noCharacter h => exact map_eq_error.2 (Number.float_eq_tag.2 (.inl ⟨h, rfl⟩))
    | manyParts hmany hparts =>
        exact map_eq_error.2 (Number.float_eq_tag.2 (.inr ⟨rfl, hmany, hparts⟩))

end Verdict.Yaml
