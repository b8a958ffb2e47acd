/-
Strings and numbers that were written are read back. A written string is read
character by character, each from the escape that was written for it; a written
number is read to its last digit, since no text that follows a value goes on
like one.

# Vocabulary

- `Stops rest`: what follows a number does not go on like one.

# Main statements

- `stringAt_writeString`: a string is read as what was written, to its quote.
- `readNumber_toString`: so is a whole number that is not too long.
-/
import Mathlib.Data.Nat.Digits.Defs
import Verdict.Json.Reader
import Verdict.Json.Writer

namespace Verdict.Json

-- ============================================================== strings

/-- The escape of a control character has four digits, and they are read as its
code unit. -/
theorem padded_control : ∀ n < 0x20, (Text.padded 16 4 n).length = 4
    ∧ ((Text.padded 16 4 n).mapM (Text.digitBelow? 16)).map (Text.ofDigits 16) = some n := by
  decide

/-- An escape is read as its character where the text goes on after it. -/
theorem readEscape_control {c : Char} (hc : c.toNat < 0x20) (opened : List Char)
    {more : List Char} (hmore : more ≠ []) :
    readEscape opened ('u' :: Text.padded 16 4 c.toNat ++ more) = .ok (c, more) := by
  obtain ⟨hlength, hvalue⟩ := padded_control c.toNat hc
  obtain ⟨m, ms, rfl⟩ := List.exists_cons_of_ne_nil hmore
  match hdigits : Text.padded 16 4 c.toNat, hlength with
  | [p, q, r, s], _ =>
      rw [hdigits] at hvalue
      have hunit : codeUnit? p q r s = some c.toNat := by
        unfold codeUnit?
        rw [← hvalue, Option.map_eq_bind]
        rfl
      have hafter : unitAfter ('u' :: p :: q :: r :: s :: m :: ms) = .ok c.toNat := by
        unfold unitAfter
        dsimp only
        rw [hunit]
      have hlow : ¬ (0xd800 ≤ c.toNat ∧ c.toNat < 0xdc00) := by omega
      have hchar : Text.ofCodePoint c.toNat = c := by
        have hhalf : Text.isHalf c.toNat = false := by
          unfold Text.isHalf
          rw [decide_eq_false (by omega)]
          rfl
        unfold Text.ofCodePoint
        rw [hhalf]
        exact Char.ofNat_toNat c
      show readEscape opened ('u' :: p :: q :: r :: s :: m :: ms) = .ok (c, m :: ms)
      unfold readEscape
      dsimp only
      rw [hafter]
      show (if 0xd800 ≤ c.toNat ∧ c.toNat < 0xdc00 then _
        else Except.ok (Text.ofCodePoint c.toNat, m :: ms)) = _
      rw [if_neg hlow, hchar]

/-- One written character is read in one step. -/
theorem readString_writeChar (opened : List Char) (step : Char) (steps read : List Char)
    (c : Char) {more : List Char} (hmore : more ≠ []) :
    readString opened (step :: steps) read (writeChar c ++ more)
      = readString opened steps (c :: read) more := by
  unfold writeChar
  split
  case h_8 hquote hslash _ _ _ _ _ =>
    split
    next hcontrol =>
      show (readEscape opened ('u' :: Text.padded 16 4 c.toNat ++ more) >>= fun x =>
        readString opened steps (x.1 :: read) x.2) = _
      rw [readEscape_control hcontrol opened hmore]
      rfl
    next hplain =>
      show readString opened (step :: steps) read (c :: more) = _
      rw [readString.eq_def]
      dsimp only
      split
      next heq => cases heq
      next heq =>
        injection heq with heq
        exact absurd heq hquote
      next heq =>
        injection heq with heq
        exact absurd heq hslash
      next heq =>
        injection heq with hc hrest
        subst hc hrest
        rw [if_neg hplain]
  all_goals rfl

theorem readString_written (opened : List Char) {steps read cs : List Char} (rest : List Char)
    (h : cs.length < steps.length) :
    readString opened steps read (cs.flatMap writeChar ++ '"' :: rest)
      = .ok (String.ofList (read.reverse ++ cs), rest) := by
  induction cs generalizing steps read with
  | nil =>
      obtain ⟨step, steps, rfl⟩ := List.exists_cons_of_length_pos h
      rw [List.append_nil]
      rfl
  | cons c cs ih =>
      obtain ⟨step, steps, rfl⟩ := List.exists_cons_of_length_pos (Nat.zero_lt_of_lt h)
      rw [List.flatMap_cons, List.append_assoc,
        readString_writeChar opened step steps read c (by simp),
        ih (Nat.lt_of_succ_lt_succ h), List.reverse_cons, List.append_assoc]
      rfl

theorem length_writeChar_pos (c : Char) : 0 < (writeChar c).length := by
  unfold writeChar
  split
  case h_8 =>
    split
    next => exact Nat.succ_pos _
    next => exact Nat.succ_pos _
  all_goals exact Nat.succ_pos _

theorem length_le_flatMap (cs : List Char) : cs.length ≤ (cs.flatMap writeChar).length := by
  induction cs with
  | nil => exact Nat.le_refl 0
  | cons c cs ih =>
      have hpos := length_writeChar_pos c
      rw [List.flatMap_cons, List.length_append, List.length_cons]
      omega

/-- A written string is read to its quote. -/
theorem stringAt_writeString (s : String) (rest : List Char) :
    stringAt (writeString s ++ rest) = .ok (s, rest) := by
  have hlength : s.toList.length < (writeString s ++ rest).length := by
    have hle := length_le_flatMap s.toList
    unfold writeString
    simp only [List.length_append, List.length_cons]
    omega
  have htext : (writeString s ++ rest).drop 1
      = s.toList.flatMap writeChar ++ '"' :: rest := by
    unfold writeString
    rw [List.cons_append, List.cons_append, List.drop_one, List.tail_cons, List.append_assoc]
    rfl
  unfold stringAt
  rw [htext, readString_written _ rest hlength, List.reverse_nil, List.nil_append,
    String.ofList_toList]

-- ============================================================== numbers

/-- What follows a number does not go on like one. -/
def Stops (rest : List Char) : Prop :=
  ∀ c cs, rest = c :: cs → Text.isAsciiDigit c = false ∧ c ≠ '.' ∧ c ≠ 'e' ∧ c ≠ 'E'

theorem isAsciiDigit_of_toDigits {n : Nat} {c : Char} (h : c ∈ Nat.toDigits 10 n) :
    Text.isAsciiDigit c = true := by
  have hdigit := Nat.isDigit_of_mem_toDigits (by decide) (by decide) h
  unfold Char.isDigit at hdigit
  unfold Text.isAsciiDigit
  exact hdigit

theorem spanDigits_append {digits rest : List Char}
    (hdigits : ∀ c ∈ digits, Text.isAsciiDigit c = true) (hrest : Stops rest) :
    spanDigits (digits ++ rest) = (digits, rest) := by
  have hnone : rest.takeWhile Text.isAsciiDigit = []
      ∧ rest.dropWhile Text.isAsciiDigit = rest := by
    cases rest with
    | nil => exact ⟨rfl, rfl⟩
    | cons c cs =>
        have hc := (hrest c cs rfl).1
        rw [List.takeWhile_cons, List.dropWhile_cons, hc]
        exact ⟨rfl, rfl⟩
  unfold spanDigits
  rw [List.takeWhile_append_of_pos hdigits, List.dropWhile_append_of_pos hdigits, hnone.1,
    hnone.2, List.append_nil]

/-- Only zero is written with a zero at its head. -/
theorem toDigits_eq_cons {n : Nat} (hn : n ≠ 0) :
    ∃ c cs, Nat.toDigits 10 n = c :: cs ∧ c ≠ '0' := by
  induction n using Nat.strongRecOn with
  | ind n ih =>
      by_cases hlt : n < 10
      · refine ⟨n.digitChar, [], Nat.toDigits_of_lt_base hlt, ?_⟩
        have hall : ∀ m < 10, m ≠ 0 → m.digitChar ≠ '0' := by decide
        exact hall n hlt hn
      · obtain ⟨c, cs, heq, hc⟩ := ih (n / 10) (by omega) (by omega)
        refine ⟨c, cs ++ [(n % 10).digitChar], ?_, hc⟩
        rw [Nat.toDigits_of_base_le (by decide) (by omega), heq]
        rfl

theorem readWhole_toDigits (n : Nat) {rest : List Char} (hrest : Stops rest) :
    readWhole (Nat.toDigits 10 n ++ rest) = (Nat.toDigits 10 n, rest) := by
  by_cases hn : n = 0
  · subst hn
    rfl
  · obtain ⟨c, cs, heq, hc⟩ := toDigits_eq_cons hn
    have hspan : spanDigits (Nat.toDigits 10 n ++ rest) = (Nat.toDigits 10 n, rest) :=
      spanDigits_append (fun c hc => isAsciiDigit_of_toDigits hc) hrest
    rw [heq] at hspan ⊢
    unfold readWhole
    split
    next heq' =>
      injection heq' with heq'
      exact absurd heq' hc
    next => exact hspan

theorem readFraction_of_stops {rest : List Char} (hrest : Stops rest) :
    readFraction rest = ([], rest) := by
  unfold readFraction
  split
  next after => exact absurd rfl (hrest _ _ rfl).2.1
  next => rfl

theorem readExponent_of_stops {rest : List Char} (hrest : Stops rest) :
    readExponent rest = (none, rest) := by
  unfold readExponent
  split
  next c cs =>
    obtain ⟨-, -, hlower, hupper⟩ := hrest c cs rfl
    rw [if_neg fun h => h.elim hlower hupper]
  next => rfl

theorem decimalValue_toDigits (n : Nat) : Text.decimalValue (Nat.toDigits 10 n) = n := by
  have hworth : ∀ c ∈ Nat.toDigits 10 n,
      (Text.digitBelow? 10 c).getD 0 = c.toNat - '0'.toNat := by
    intro c hc
    have hdigit := isAsciiDigit_of_toDigits hc
    unfold Text.isAsciiDigit at hdigit
    rw [Bool.and_eq_true, decide_eq_true_iff, decide_eq_true_iff] at hdigit
    have hlt : c.toNat - '0'.toNat < 10 := by
      have hle : c.toNat ≤ '9'.toNat := hdigit.2
      have hnine : '9'.toNat = 57 := rfl
      have hzero : '0'.toNat = 48 := rfl
      omega
    unfold Text.digitBelow? Text.asciiDigit?
    rw [if_pos hdigit, Option.filter_some, if_pos (decide_eq_true hlt)]
    rfl
  have hfold : ∀ (cs : List Char) (m : Nat),
      (∀ c ∈ cs, (Text.digitBelow? 10 c).getD 0 = c.toNat - '0'.toNat) →
      (cs.map fun c => (Text.digitBelow? 10 c).getD 0).foldl (fun n d => n * 10 + d) m
        = Nat.ofDigitChars 10 cs m := by
    intro cs
    induction cs with
    | nil => exact fun m _ => rfl
    | cons c cs ih =>
        intro m h
        rw [List.forall_mem_cons] at h
        rw [List.map_cons, List.foldl_cons, ih _ h.2, h.1, Nat.mul_comm]
        rfl
  unfold Text.decimalValue Text.ofDigits
  rw [hfold _ 0 hworth, Nat.ofDigitChars_ten_toDigits]

/-- Digits that are not too many are read as their number, with the sign before
them. -/
theorem readNumber_of_sign {n : Nat} (hn : (Nat.toDigits 10 n).length ≤ digitLimit)
    {rest cs : List Char} (hrest : Stops rest) {negative : Bool}
    (hcs : readSign cs = (negative, Nat.toDigits 10 n ++ rest)) :
    readNumber cs = .ok (.int (if negative then -n else n), rest) := by
  have hempty : (Nat.toDigits 10 n).isEmpty = false :=
    List.isEmpty_eq_false_iff.2 Nat.toDigits_ne_nil
  unfold readNumber
  rw [hcs]
  dsimp only
  rw [readWhole_toDigits n hrest]
  simp only [hempty, readFraction_of_stops hrest, readExponent_of_stops hrest,
    decimalValue_toDigits]
  exact if_neg (Nat.not_lt.2 hn)

/-- A whole number is written as its digits, after a minus if it is negative. -/
theorem toList_toString (n : Int) : (toString n).toList
    = if n < 0 then '-' :: Nat.toDigits 10 n.natAbs else Nat.toDigits 10 n.natAbs := by
  cases n with
  | ofNat n =>
      have hpos : ¬ Int.ofNat n < 0 := Int.not_lt.2 (Int.natCast_nonneg n)
      rw [if_neg hpos]
      exact Nat.toList_repr
  | negSucc n =>
      rw [if_pos (Int.negSucc_lt_zero n)]
      show ("-" ++ (n + 1).repr).toList = _
      rw [String.toList_append, Nat.toList_repr]
      rfl

theorem toDigits_eq_digit_cons (n : Nat) :
    ∃ c cs, Nat.toDigits 10 n = c :: cs ∧ Text.isAsciiDigit c = true := by
  obtain ⟨c, cs, hcons⟩ := List.exists_cons_of_ne_nil (Nat.toDigits_ne_nil (n := n) (b := 10))
  exact ⟨c, cs, hcons, isAsciiDigit_of_toDigits (n := n) (hcons ▸ List.mem_cons_self ..)⟩

/-- The sign of a written number is told from its digits. -/
theorem readSign_toString (n : Int) (rest : List Char) :
    readSign ((toString n).toList ++ rest)
      = (decide (n < 0), Nat.toDigits 10 n.natAbs ++ rest) := by
  rw [toList_toString]
  split
  next hneg =>
    rw [decide_eq_true hneg]
    rfl
  next hpos =>
    obtain ⟨c, cs, hcons, hdigit⟩ := toDigits_eq_digit_cons n.natAbs
    rw [decide_eq_false hpos, hcons]
    unfold readSign
    split
    next heq =>
      injection heq with hc
      rw [hc] at hdigit
      cases hdigit
    next => rfl

/-- A whole number that is not too long is read as it was written. -/
theorem readNumber_toString {n : Int} (hn : n.natAbs < Value.beyondDigits) {rest : List Char}
    (hrest : Stops rest) : readNumber ((toString n).toList ++ rest) = .ok (.int n, rest) := by
  have hdigits : (Nat.toDigits 10 n.natAbs).length ≤ digitLimit := by
    -- for every exponent, so that the power itself is never worked out
    have hall : ∀ k, 0 < k → n.natAbs < Nat.pow 10 k → (Nat.toDigits 10 n.natAbs).length ≤ k :=
      fun k hk => (Nat.length_toDigits_le_iff (by decide) hk).2
    unfold Value.beyondDigits at hn
    exact hall 4300 (by decide) hn
  have hvalue : (if decide (n < 0) = true then -(n.natAbs : Int) else n.natAbs) = n := by
    simp only [decide_eq_true_iff]
    omega
  rw [readNumber_of_sign hdigits hrest (readSign_toString n rest), hvalue]

end Verdict.Json
