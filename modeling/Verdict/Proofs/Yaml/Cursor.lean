/-
Where a reader of tokens can get in a text. A cursor only moves forward, so
what is left at it is always an end of the text, and what is met there is
met in the text. Of the failures of a tag, one alone can come of this: an
escape that gives a number beyond all code points.

# Vocabulary

- `c.In text`: the cursor stands in the text.
- `HasWideEscape text`: the text holds such an escape.
- `Escaping text f`: the failure `f` is one of a tag only if it comes of such
  an escape.

# Main statements

Each part of the reader, begun at a cursor in the text, ends at a cursor in
the text or in an `Escaping` failure: `plainScalar_in`, `blockScalar_in`, and
`quotedScalar_in`, the one part in which an escape is read.
-/
import Mathlib.Tactic.Ring
import Verdict.Proofs.Outcome
import Verdict.Yaml.Scalar

namespace Verdict.Yaml

open Outcome

/-- A cursor stands in a text: what is left at it is an end of the text. -/
def Cursor.In (c : Cursor) (text : List Char) : Prop := c.rest <:+ text

/-- A text holds an escape of eight hexadecimal digits whose number is beyond
all that a code point is held in. -/
def HasWideEscape (text : List Char) : Prop :=
  ∃ digits worths, '\\' :: 'U' :: digits <:+: text ∧ digits.length = 8
    ∧ digits.mapM (Text.digitBelow? 16) = some worths
    ∧ 0x80000000 ≤ Text.ofDigits 16 worths

/-- A failure is one of a tag only where the text holds a wide escape. -/
def Escaping (text : List Char) (f : Failure) : Prop :=
  ∀ g, f = .tag g → g = .beyondRange ∧ HasWideEscape text

theorem escaping_malformed {text : List Char} : Escaping text .malformed := nofun

theorem escaping_badValue {text : List Char} : Escaping text .badValue := nofun

variable {text : List Char} {c : Cursor}

-- ============================================================= cursors

namespace Cursor

theorem next_rest (c : Cursor) : c.next.rest = c.rest.drop 1 := by
  obtain ⟨rest, index, line, column⟩ := c
  cases rest with
  | nil => rfl
  | cons ch rest =>
      unfold next
      dsimp only
      split
      · rfl
      · split
        · rfl
        · rfl

/-- Where a character stands at a cursor, it and what is left after it are
what is left. -/
theorem rest_eq (h : c.peek ≠ ending) : c.rest = c.peek :: c.next.rest := by
  rw [next_rest]
  unfold peek at h ⊢
  cases hrest : c.rest with
  | nil =>
      rw [hrest] at h
      exact absurd rfl h
  | cons ch rest => rfl

namespace In

theorem next (h : c.In text) : c.next.In text := by
  unfold In
  rw [next_rest]
  exact (List.drop_suffix 1 c.rest).trans h

theorem advance (h : c.In text) (n : Nat) : (c.advance n).In text := by
  induction n generalizing c with
  | zero => exact h
  | succ n ih => exact ih h.next

theorem skip (h : c.In text) (test : Char → Bool) : (c.skip test).In text :=
  h.advance _

theorem skipSpaces (h : c.In text) : c.skipSpaces.In text := h.skip _

theorem skipComment (h : c.In text) : c.skipComment.In text := by
  unfold Cursor.skipComment
  split
  · exact h.skip _
  · exact h

theorem indentTo (h : c.In text) (column n : Nat) : (c.indentTo column n).In text := by
  induction n generalizing c with
  | zero => exact h
  | succ n ih =>
      unfold Cursor.indentTo
      split
      · exact ih h.next
      · exact h

theorem lineBreak (h : c.In text) : c.lineBreak.2.In text := by
  unfold Cursor.lineBreak
  split
  · exact h.advance 2
  · exact h.next
  · exact h.next
  · exact h.next
  · exact h.next
  · exact h.next
  · exact h

end In

end Cursor

-- ========================================================= plain ones

theorem plainBreaks_in (h : c.In text) (steps breaks : List Char) :
    (plainBreaks steps c breaks).2.In text := by
  induction steps generalizing c breaks with
  | nil => exact h
  | cons _ steps ih =>
      unfold plainBreaks
      split
      · exact ih h.next breaks
      · split
        · dsimp only
          split
          · exact h.lineBreak
          · exact ih h.lineBreak _
        · exact h

theorem plainSpace_in (h : c.In text) : (plainSpace c).2.1.In text := by
  have hafter : (c.span (· = ' ')).2.In text := h.skip _
  unfold plainSpace
  dsimp only
  split
  · split
    · exact hafter.lineBreak
    · have hbreaks := plainBreaks_in hafter.lineBreak (c.span (· = ' ')).2.lineBreak.2.rest []
      split
      next heq => rw [heq] at hbreaks; exact hbreaks
      next heq => rw [heq] at hbreaks; exact hbreaks
  · exact hafter

theorem plainFrom_in (h : c.In text) (inFlow : Bool) (column : Int)
    (steps read spaces : List Char) (fresh : Bool) :
    (plainFrom inFlow column steps c read spaces fresh).2.1.In text := by
  induction steps generalizing c read spaces fresh with
  | nil => exact h
  | cons _ steps ih =>
      unfold plainFrom
      split
      · exact h
      · dsimp only
        split
        · exact h
        · have hspace := plainSpace_in (h.advance (plainChunk inFlow c.rest).length)
          split
          · exact hspace
          · exact ih hspace ..

theorem plainScalar_in (h : c.In text) (inFlow : Bool) (column : Int) :
    (plainScalar inFlow column c).2.1.In text := plainFrom_in h ..

-- ======================================================== quoted ones

theorem quotedBreaks_in (h : c.In text) (steps breaks : List Char) :
    Ends (Escaping text) (fun r => r.2.In text) (quotedBreaks steps c breaks) := by
  induction steps generalizing c breaks with
  | nil => exact h
  | cons _ steps ih =>
      unfold quotedBreaks
      split
      · exact escaping_malformed
      · dsimp only
        split
        · exact ih (h.skip _).lineBreak _
        · exact h.skip _

theorem quotedSpace_in (h : c.In text) :
    Ends (Escaping text) (fun r => r.2.In text) (quotedSpace c) := by
  have hafter := h.skip fun ch => ch = ' ' || ch = '\t'
  unfold quotedSpace
  dsimp only
  split
  · exact escaping_malformed
  · split
    · exact (quotedBreaks_in hafter.lineBreak _ []).bind fun r hr => hr
    · exact hafter

/-- The number of hexadecimal digits is bounded by their count. -/
theorem ofDigits_lt {digits : List Char} {worths : List Nat}
    (h : digits.mapM (Text.digitBelow? 16) = some worths) :
    Text.ofDigits 16 worths < 16 ^ digits.length := by
  -- whatever number stands before the digits
  suffices hfrom : ∀ n, worths.foldl (fun n d => n * 16 + d) n
      < (n + 1) * 16 ^ digits.length by
    simpa [Text.ofDigits] using hfrom 0
  induction digits generalizing worths with
  | nil =>
      intro n
      obtain rfl : [] = worths := by simpa using h
      simp
  | cons digit digits ih =>
      intro n
      rw [List.mapM_cons] at h
      obtain ⟨d, hd, h⟩ := Option.bind_eq_some_iff.1 h
      obtain ⟨ds, hds, h⟩ := Option.bind_eq_some_iff.1 h
      obtain rfl := Option.some.inj h
      have hlt : d < 16 := by simpa using (Option.filter_eq_some_iff.1 hd).2
      calc (d :: ds).foldl (fun n d => n * 16 + d) n
          = ds.foldl (fun n d => n * 16 + d) (n * 16 + d) := rfl
        _ < (n * 16 + d + 1) * 16 ^ digits.length := ih hds _
        _ ≤ ((n + 1) * 16) * 16 ^ digits.length := Nat.mul_le_mul_right _ (by omega)
        _ = (n + 1) * 16 ^ (digits.length + 1) := by rw [Nat.pow_succ]; ring

/-- A number gives a character, or too wide an escape. -/
theorem codeChar_ends (n : Nat) :
    Ends (fun f => ∀ g, f = .tag g → g = .beyondRange ∧ 0x80000000 ≤ n) (fun _ => True)
      (codeChar n) := by
  unfold codeChar
  split
  next h => exact fun g hg => ⟨(Failure.tag.inj hg).symm, h⟩
  next =>
    split
    · exact nofun
    · trivial

theorem escapeWidth?_cases {ch : Char} {width : Nat} (h : escapeWidth? ch = some width) :
    width ≤ 4 ∨ ch = 'U' ∧ width = 8 := by
  obtain ⟨pre, post, hsplit, -⟩ := List.lookup_eq_some_iff.1 h
  have hmem : (ch, width) ∈ [('x', 2), ('u', 4), ('U', 8)] := by
    rw [hsplit]
    exact List.mem_append_right _ (List.mem_cons_self ..)
  simp only [List.mem_cons, Prod.mk.injEq, List.not_mem_nil, or_false] at hmem
  rcases hmem with ⟨-, rfl⟩ | ⟨-, rfl⟩ | ⟨rfl, rfl⟩
  · exact .inl (by decide)
  · exact .inl (by decide)
  · exact .inr ⟨rfl, rfl⟩

/-- An escape ends at a cursor in the text. That it gives too great a number
is seen on the text. -/
theorem quotedEscape_in (h : '\\' :: c.rest <:+ text) :
    Ends (Escaping text) (fun r => r.2.In text) (quotedEscape c) := by
  have hc : c.In text := (List.suffix_cons ..).trans h
  unfold quotedEscape
  split
  · exact hc.next
  · split
    next width hwidth =>
      dsimp only
      split
      · exact escaping_malformed
      next hlength =>
        split
        · exact escaping_malformed
        next worths hworths =>
          refine Ends.bind ((codeChar_ends _).imp ?_ fun _ h => h) fun ch _ => hc.next.advance _
          intro f hf g hg
          obtain ⟨rfl, hwide⟩ := hf g hg
          have hdigits : (c.next.rest.take width).length = width :=
            Nat.le_antisymm (List.length_take_le ..) (Nat.not_lt.1 hlength)
          rcases escapeWidth?_cases hwidth with hfew | ⟨hletter, rfl⟩
          · -- four digits are too few
            have hlt := ofDigits_lt hworths
            have hle : 16 ^ (c.next.rest.take width).length ≤ 16 ^ 4 := by
              rw [hdigits]
              exact Nat.pow_le_pow_right (by decide) hfew
            omega
          · refine ⟨rfl, c.next.rest.take 8, worths, ?_, hdigits, hworths, hwide⟩
            have hrest : c.rest = 'U' :: c.next.rest := by
              rw [← hletter]
              exact Cursor.rest_eq (by rw [hletter]; decide)
            have htake : 'U' :: c.next.rest.take 8 <+: c.rest := by
              rw [hrest, List.prefix_cons_inj]
              exact List.take_prefix ..
            exact ((List.prefix_cons_inj _).2 htake).isInfix.trans h.isInfix
    next =>
      split
      · exact quotedBreaks_in hc.lineBreak ..
      · exact escaping_malformed

theorem quotedFrom_in (h : c.In text) (quote : Char) (steps read : List Char) :
    Ends (Escaping text) (fun r => r.2.In text) (quotedFrom quote steps c read) := by
  induction steps generalizing c read with
  | nil => exact escaping_malformed
  | cons _ steps ih =>
      unfold quotedFrom
      dsimp only
      split
      · split
        · exact ih (h.advance 2) _
        · exact h.next
      · split
        next hescape =>
          have hrest : c.rest = '\\' :: c.next.rest := by
            rw [← hescape.2]
            exact Cursor.rest_eq (by rw [hescape.2]; decide)
          exact (quotedEscape_in (hrest ▸ h)).bind fun r hr => ih hr _
        next =>
          split
          · exact (quotedSpace_in h).bind fun r hr => ih hr _
          · exact ih h.next _

theorem quotedScalar_in (h : c.In text) :
    Ends (Escaping text) (fun r => r.2.In text) (quotedScalar c) := quotedFrom_in h.next ..

-- ========================================================= block ones

theorem increment?_ends (ch : Char) :
    Ends (Escaping text) (fun _ => True) (increment? ch) := by
  unfold increment?
  split
  · exact escaping_malformed
  · trivial

theorem blockIndicators_in (h : c.In text) :
    Ends (Escaping text) (fun r => r.2.2.In text) (blockIndicators c) := by
  have hfinish : ∀ (chomping : Chomping) (increment : Option Nat) {c : Cursor}, c.In text →
      Ends (Escaping text) (fun r => r.2.2.In text)
        (if isSpaceOrEnd c.peek then pure (chomping, increment, c)
          else throw .malformed) := by
    intro chomping increment c hc
    split
    · exact hc
    · exact escaping_malformed
  unfold blockIndicators
  extract_lets finish
  split
  · refine (increment?_ends _).bind fun n _ => ?_
    cases n with
    | some n => exact hfinish _ _ h.next.next
    | none => exact hfinish _ _ h.next
  · refine (increment?_ends _).bind fun n _ => ?_
    cases n with
    | some n =>
        dsimp only
        split
        · exact hfinish _ _ h.next.next
        · exact hfinish _ _ h.next
    | none => exact hfinish _ _ h

theorem ignoredLine_in (h : c.In text) :
    Ends (Escaping text) (fun c => c.In text) (ignoredLine c) := by
  unfold ignoredLine
  dsimp only
  split
  · exact h.skipSpaces.skipComment.lineBreak
  · exact escaping_malformed

theorem blockIndent_in (h : c.In text) (steps breaks : List Char) (greatest : Nat) :
    (blockIndent steps c breaks greatest).2.2.In text := by
  induction steps generalizing c breaks greatest with
  | nil => exact h
  | cons _ steps ih =>
      unfold blockIndent
      split
      · exact ih h.next ..
      · split
        · exact ih h.lineBreak ..
        · exact h

theorem blockBreaks_in (h : c.In text) (column : Nat) (steps breaks : List Char) :
    (blockBreaks column steps c breaks).2.In text := by
  induction steps generalizing c breaks with
  | nil => exact h
  | cons _ steps ih =>
      unfold blockBreaks
      dsimp only
      split
      · exact ih (h.indentTo ..).lineBreak _
      · exact h.indentTo ..

theorem blockLines_in (h : c.In text) (folded : Bool) (column : Nat)
    (steps read last breaks : List Char) :
    (blockLines folded column steps c read last breaks).2.2.2.In text := by
  induction steps generalizing c read last breaks with
  | nil => exact h
  | cons _ steps ih =>
      unfold blockLines
      split
      · exact h
      · have hline : (c.skip fun ch => !isBreakOrEnd ch).In text := h.skip _
        have hbreaks := blockBreaks_in hline.lineBreak column
          (c.skip fun ch => !isBreakOrEnd ch).lineBreak.2.rest []
        dsimp only
        split
        · exact hbreaks
        · split
          · exact ih hbreaks ..
          · exact ih hbreaks ..

theorem blockScalar_in (h : c.In text) (indent : Int) :
    Ends (Escaping text) (fun r => r.2.In text) (blockScalar indent c) := by
  unfold blockScalar
  refine (blockIndicators_in h.next).bind fun r hr => ?_
  refine (ignoredLine_in hr).bind fun c hc => ?_
  obtain ⟨chomping, increment, _⟩ := r
  cases increment with
  | none => exact blockLines_in (blockIndent_in hc ..) ..
  | some n => exact blockLines_in (blockBreaks_in hc ..) ..

end Verdict.Yaml
