/-
What reading any text can end in. A text that is read gives a document without
long numbers, as the reader takes a digit for every digit of a number. A text
that is not read is malformed, unless it shows why the reader gave up on it:
digits that are too many for a whole number, or too many brackets. The steps
that the reader is given never run out.

# Vocabulary

- `LongRun cs`: somewhere in a text too many digits stand in a row.
- `openings cs`: the number of brackets that a text opens.
- `Stop.Shown depth cs`: the text shows why it was not read with so many levels.
- `Decoded v`: a document without long numbers.
- `Taken cs r`: something was read from the head of a text, and of what kind.

# Main statements

- `readValue_ends`: what reading a value ends in.
- `read_ends`: what reading a whole text ends in.
-/
import Mathlib.Algebra.Group.Nat.Defs
import Mathlib.Data.List.TakeWhile
import Verdict.Json.Reader
import Verdict.Proofs.Value.Short

namespace Verdict.Json

open Outcome (Ends)

variable {cs rest : List Char} {depth : Nat}

-- ================================================================ stops

/-- Somewhere in a text more digits stand in a row than a whole number has. -/
def LongRun (cs : List Char) : Prop :=
  ∃ digits, digits <:+: cs ∧ digitLimit < digits.length
    ∧ ∀ c ∈ digits, Text.isAsciiDigit c = true

/-- A bracket that opens an array or an object. -/
def isOpening (c : Char) : Bool := c = '[' || c = '\x7b'

/-- The number of brackets that a text opens. -/
def openings (cs : List Char) : Nat := cs.countP isOpening

/-- A text is refused for its form. -/
def Stop.Malformed : Stop → Prop
  | .malformed .. => True
  | _ => False

/-- A text shows why it was not read with so many levels. -/
def Stop.Shown (depth : Nat) (cs : List Char) : Stop → Prop
  | .malformed .. => True
  | .longNumber => LongRun cs
  | .tooDeep => depth < openings cs

theorem refuse_ends {α : Type} {Q : α → Prop} (reason : Reason) (cs : List Char) :
    Ends Stop.Malformed Q (refuse reason cs) := trivial

theorem Stop.Malformed.shown {stop : Stop} (h : stop.Malformed) : stop.Shown depth cs := by
  cases stop with
  | malformed => trivial
  | longNumber => cases h
  | tooDeep => cases h

/-- What a part of a text shows, the text does. -/
theorem Stop.Shown.within {stop : Stop} (h : stop.Shown depth rest) (hrest : rest <:+ cs) :
    stop.Shown depth cs := by
  cases stop with
  | malformed => trivial
  | longNumber =>
      obtain ⟨digits, hin, hlong, hdigits⟩ := h
      exact ⟨digits, hin.trans hrest.isInfix, hlong, hdigits⟩
  | tooDeep => exact Nat.lt_of_lt_of_le h (hrest.sublist.countP_le ..)

/-- A bracket is opened for the level that it takes. -/
theorem Stop.Shown.opening {stop : Stop} {c : Char} (h : stop.Shown depth rest)
    (hc : isOpening c = true) (hrest : rest <:+ cs) : stop.Shown (depth + 1) (c :: cs) := by
  cases stop with
  | malformed => trivial
  | longNumber =>
      have hlong : Stop.Shown depth (c :: cs) .longNumber :=
        h.within (hrest.trans (List.suffix_cons ..))
      exact hlong
  | tooDeep =>
      have hle : openings rest ≤ openings cs := hrest.sublist.countP_le ..
      have hcons : openings (c :: cs) = openings cs + 1 := List.countP_cons_of_pos hc
      show depth + 1 < openings (c :: cs)
      rw [hcons]
      exact Nat.succ_lt_succ (Nat.lt_of_lt_of_le h hle)

theorem skip_suffix (cs : List Char) : skip cs <:+ cs := List.dropWhile_suffix _

-- ============================================================== strings

theorem unitAfter_ends (unit : List Char) :
    Ends Stop.Malformed (fun _ => True) (unitAfter unit) := by
  unfold unitAfter
  split
  next =>
    split
    · trivial
    · exact refuse_ends ..
  next => exact refuse_ends ..

theorem secondUnit_ends (cs : List Char) :
    Ends Stop.Malformed (fun _ => True) (secondUnit cs) := by
  unfold secondUnit
  split
  next => exact .ite (fun _ => trivial) fun _ => (unitAfter_ends _).map fun _ _ => trivial
  next => trivial

theorem readEscape_ends (opened cs : List Char) :
    Ends Stop.Malformed (fun r => r.2 <:+ cs) (readEscape opened cs) := by
  unfold readEscape
  split
  next => exact refuse_ends ..
  next rest =>
    have hafter : rest.drop 4 <:+ 'u' :: rest :=
      (List.drop_suffix ..).trans (List.suffix_cons ..)
    refine (unitAfter_ends _).bind fun high _ => ?_
    refine .ite (fun _ => (secondUnit_ends _).bind fun low _ => ?_) fun _ => hafter
    split
    next =>
      split
      · exact (List.drop_suffix ..).trans hafter
      · exact hafter
    next => exact hafter
  next c rest _ =>
    split
    · exact List.suffix_cons ..
    · trivial

theorem readString_ends (opened steps read cs : List Char) :
    Ends Stop.Malformed (fun r => r.2 <:+ cs) (readString opened steps read cs) := by
  induction steps generalizing read cs with
  | nil => exact refuse_ends ..
  | cons _ steps ih =>
      unfold readString
      split
      next => exact refuse_ends ..
      next => exact List.suffix_cons ..
      next rest =>
        refine (readEscape_ends opened rest).bind fun r hr => ?_
        refine (ih (r.1 :: read) r.2).imp (fun _ h => h) fun s hs => ?_
        exact hs.trans (hr.trans (List.suffix_cons ..))
      next c rest _ _ =>
        refine .ite (fun _ => refuse_ends ..) fun _ => ?_
        exact (ih (c :: read) rest).imp (fun _ h => h) fun s hs => hs.trans (List.suffix_cons ..)

/-- A string leaves an end of the text after its quote. -/
theorem stringAt_ends (quote : Char) (cs : List Char) :
    Ends Stop.Malformed (fun r => r.2 <:+ cs) (stringAt (quote :: cs)) := readString_ends ..

-- ============================================================== numbers

/-- Something was read from the head of a text: a document without long numbers.
What is left is an end of the text. -/
structure Taken (cs : List Char) (r : Value × List Char) : Prop where
  document : r.1.IsDocument
  short : r.1.Short
  rest : r.2 <:+ cs
  shorter : r.2.length < cs.length

theorem readSign_suffix (cs : List Char) : (readSign cs).2 <:+ cs := by
  unfold readSign
  split
  · exact List.suffix_cons ..
  · exact List.suffix_refl _

theorem spanDigits_split (cs : List Char) : (spanDigits cs).1 ++ (spanDigits cs).2 = cs :=
  List.takeWhile_append_dropWhile

theorem spanDigits_suffix (cs : List Char) : (spanDigits cs).2 <:+ cs := List.dropWhile_suffix _

theorem readWhole_split (cs : List Char) : (readWhole cs).1 ++ (readWhole cs).2 = cs := by
  unfold readWhole
  split
  · rfl
  · exact spanDigits_split cs

theorem isAsciiDigit_of_readWhole {c : Char} (h : c ∈ (readWhole cs).1) :
    Text.isAsciiDigit c = true := by
  unfold readWhole at h
  split at h
  next =>
    rw [List.mem_singleton.1 h]
    rfl
  next => exact List.mem_takeWhile_imp h

theorem readFraction_suffix (cs : List Char) : (readFraction cs).2 <:+ cs := by
  unfold readFraction
  split
  next rest =>
    dsimp only
    split
    · exact List.suffix_refl _
    · exact (spanDigits_suffix rest).trans (List.suffix_cons ..)
  next => exact List.suffix_refl _

theorem readExponent_suffix (cs : List Char) : (readExponent cs).2 <:+ cs := by
  unfold readExponent
  split
  next c rest =>
    split
    next =>
      dsimp only
      -- the digits stand after a minus, after a plus, or at once
      split
      next digits =>
        split
        · exact List.suffix_refl _
        · exact (spanDigits_suffix digits).trans
            ((List.suffix_cons ..).trans (List.suffix_cons ..))
      next digits =>
        split
        · exact List.suffix_refl _
        · exact (spanDigits_suffix digits).trans
            ((List.suffix_cons ..).trans (List.suffix_cons ..))
      next =>
        split
        · exact List.suffix_refl _
        · exact (spanDigits_suffix rest).trans (List.suffix_cons ..)
    next => exact List.suffix_refl _
  next => exact List.suffix_refl _

/-- A number is bounded by the count of its digits. -/
theorem decimalValue_lt (cs : List Char) : Text.decimalValue cs < 10 ^ cs.length := by
  -- whatever number stands before the digits
  suffices hfrom : ∀ n, (cs.map fun c => (Text.digitBelow? 10 c).getD 0).foldl
      (fun n d => n * 10 + d) n < (n + 1) * 10 ^ cs.length by
    simpa [Text.decimalValue, Text.ofDigits] using hfrom 0
  induction cs with
  | nil => simp
  | cons c cs ih =>
      intro n
      have hlt : (Text.digitBelow? 10 c).getD 0 < 10 := by
        cases hd : Text.digitBelow? 10 c with
        | none => decide
        | some d => simpa using (Option.filter_eq_some_iff.1 hd).2
      rw [List.map_cons, List.foldl_cons, List.length_cons]
      generalize (Text.digitBelow? 10 c).getD 0 = d at hlt
      calc _ < (n * 10 + d + 1) * 10 ^ cs.length := ih _
        _ ≤ ((n + 1) * 10) * 10 ^ cs.length := Nat.mul_le_mul_right _ (by omega)
        _ = (n + 1) * 10 ^ (cs.length + 1) := by rw [Nat.mul_assoc, Nat.pow_succ']

/-- Digits that are not too many give no long number. -/
theorem natAbs_lt_beyondDigits {digits : List Char} (h : digits.length ≤ digitLimit)
    (negative : Bool) {n : Int} (hn : n = Text.decimalValue digits) :
    (if negative then -n else n).natAbs < Value.beyondDigits := by
  have habs : (if negative then -n else n).natAbs = Text.decimalValue digits := by
    cases negative <;> simp [hn]
  -- for every exponent, so that the power itself is never worked out
  have hall : ∀ k, digits.length ≤ k → Text.decimalValue digits < Nat.pow 10 k :=
    fun k hk => Nat.lt_of_lt_of_le (decimalValue_lt digits) (Nat.pow_le_pow_right (by decide) hk)
  rw [habs]
  apply hall
  exact h

/-- Reading a number ends in one, or in the digits that are too many for it. -/
theorem readNumber_ends (cs : List Char) :
    Ends (Stop.Shown depth cs) (Taken cs) (readNumber cs) := by
  have hwhole : (readWhole (readSign cs).2).1 ++ (readWhole (readSign cs).2).2 <:+ cs := by
    rw [readWhole_split]
    exact readSign_suffix cs
  have hrest := (readExponent_suffix _).trans (readFraction_suffix (readWhole (readSign cs).2).2)
  unfold readNumber
  dsimp only
  refine .ite (fun _ => trivial) fun hempty => ?_
  have hshorter : (readWhole (readSign cs).2).2.length < cs.length := by
    have hle := hwhole.length_le
    have hpos := List.length_pos_iff.2 fun h => hempty (List.isEmpty_iff.2 h)
    rw [List.length_append] at hle
    omega
  have htaken : ∀ v : Value, v.IsDocument → v.Short → Taken cs
      (v, (readExponent (readFraction (readWhole (readSign cs).2).2).2).2) := by
    intro v hv hshort
    refine ⟨hv, hshort, hrest.trans ((List.suffix_append ..).trans hwhole), ?_⟩
    exact Nat.lt_of_le_of_lt hrest.length_le hshorter
  refine .ite (fun _ => .ite (fun hlong => ?_) fun hlong => ?_) fun _ => ?_
  · refine ⟨(readWhole (readSign cs).2).1, ?_, hlong, fun c hc => isAsciiDigit_of_readWhole hc⟩
    exact (List.prefix_append ..).isInfix.trans hwhole.isInfix
  · exact htaken _ (.int _) (.int (natAbs_lt_beyondDigits (Nat.not_lt.1 hlong) _ rfl))
  · exact htaken _ (.float _) (.float _)

-- =============================================================== values

/-- A word is no number. -/
theorem wordValues_plain {w : List Char × Value} (h : w ∈ wordValues) :
    w.1 ≠ [] ∧ w.2.IsDocument ∧ w.2.Short := by
  unfold wordValues at h
  simp only [List.mem_cons, List.not_mem_nil, or_false] at h
  rcases h with rfl | rfl | rfl | rfl | rfl | rfl
  · exact ⟨by decide, .null, .null⟩
  · exact ⟨by decide, .bool _, .bool _⟩
  · exact ⟨by decide, .bool _, .bool _⟩
  · exact ⟨by decide, .float _, .float _⟩
  · exact ⟨by decide, .float _, .float _⟩
  · exact ⟨by decide, .float _, .float _⟩

theorem readPlain_ends (cs : List Char) :
    Ends (Stop.Shown depth cs) (Taken cs) (readPlain cs) := by
  unfold readPlain
  split
  next word v hfind =>
    obtain ⟨hne, hdoc, hshort⟩ := wordValues_plain (List.mem_of_find?_eq_some hfind)
    have hword := List.find?_some hfind
    have hle : word.length ≤ cs.length := (List.isPrefixOf_iff_prefix.1 hword).length_le
    refine ⟨hdoc, hshort, List.drop_suffix .., ?_⟩
    have hpos : 0 < word.length := List.length_pos_iff.2 hne
    rw [List.length_drop]
    omega
  next => exact readNumber_ends cs

/-- What is taken from an end of a text is taken from the text. -/
theorem Taken.within {r : Value × List Char} (h : Taken rest r) (hrest : rest <:+ cs) :
    Taken cs r where
  document := h.document
  short := h.short
  rest := h.rest.trans hrest
  shorter := Nat.lt_of_lt_of_le h.shorter hrest.length_le

/-- A mark that follows is left behind. -/
theorem suffix_of_skip {c : Char} {after : List Char} (h : skip cs = c :: after) :
    after <:+ cs ∧ after.length < cs.length := by
  have hskip := skip_suffix cs
  rw [h] at hskip
  exact ⟨(List.suffix_cons ..).trans hskip, hskip.length_le⟩

/-- A value as reading a text gives it. -/
def Decoded (v : Value) : Prop := v.IsDocument ∧ v.Short

/-- With so many steps for so many characters the readers end in something taken,
or in what the text shows. Inside brackets it matters what was read before. -/
structure ReadersEnd (steps : Nat) : Prop where
  value : ∀ {depth cs}, 2 * cs.length + 1 ≤ steps →
    Ends (Stop.Shown depth cs) (Taken cs) (readValue steps depth cs)
  items : ∀ {depth cs} (read : List Value), (∀ v ∈ read, Decoded v) → 2 * cs.length + 2 ≤ steps →
    Ends (Stop.Shown depth cs) (Taken cs) (readItems steps depth read cs)
  members : ∀ {depth cs} (read : Table Value), read.names.Nodup → (∀ e ∈ read, Decoded e.2) →
    2 * cs.length + 2 ≤ steps →
    Ends (Stop.Shown depth cs) (Taken cs)
      (readMembers steps depth (read.map fun e => (.str e.1, e.2)) cs)

namespace ReadersEnd

variable {steps : Nat}

theorem value_succ (h : ReadersEnd steps) (hsteps : 2 * cs.length + 1 ≤ steps + 1) :
    Ends (Stop.Shown depth cs) (Taken cs) (readValue (steps + 1) depth cs) := by
  unfold readValue
  split
  next rest =>
    refine ((stringAt_ends '"' rest).imp (fun _ h => h.shown) fun _ h => h).bind fun r hr => ?_
    exact ⟨.str _, .str _, hr.trans (List.suffix_cons ..), Nat.lt_succ_of_le hr.length_le⟩
  next rest =>
    rw [List.length_cons] at hsteps
    have hle := (skip_suffix rest).length_le
    split
    next => exact List.countP_pos_iff.2 ⟨'[', List.mem_cons_self .., rfl⟩
    next after heq =>
      obtain ⟨hafter, hlt⟩ := suffix_of_skip heq
      exact ⟨.list nofun, .list nofun, hafter.trans (List.suffix_cons ..), Nat.lt_succ_of_lt hlt⟩
    next depth _ =>
      exact (h.items [] nofun (by omega)).imp (fun _ h => h.opening rfl (skip_suffix rest))
        fun _ h => h.within ((skip_suffix rest).trans (List.suffix_cons ..))
  next rest =>
    rw [List.length_cons] at hsteps
    have hle := (skip_suffix rest).length_le
    split
    next => exact List.countP_pos_iff.2 ⟨'\x7b', List.mem_cons_self .., rfl⟩
    next after heq =>
      obtain ⟨hafter, hlt⟩ := suffix_of_skip heq
      exact ⟨.map List.nodup_nil nofun, .map nofun nofun, hafter.trans (List.suffix_cons ..),
        Nat.lt_succ_of_lt hlt⟩
    next depth _ =>
      exact (h.members [] List.nodup_nil nofun (by omega)).imp
        (fun _ h => h.opening rfl (skip_suffix rest)) fun _ h => h.within ((skip_suffix rest).trans (List.suffix_cons ..))
  next => exact readPlain_ends cs

theorem items_succ (h : ReadersEnd steps) {read : List Value} (hread : ∀ v ∈ read, Decoded v)
    (hsteps : 2 * cs.length + 2 ≤ steps + 1) :
    Ends (Stop.Shown depth cs) (Taken cs) (readItems (steps + 1) depth read cs) := by
  unfold readItems
  refine (h.value (by omega)).bind fun r hr => ?_
  obtain ⟨v, rest⟩ := r
  have hall : ∀ w ∈ v :: read, Decoded w := List.forall_mem_cons.2 ⟨⟨hr.document, hr.short⟩, hread⟩
  have hshorter := hr.shorter
  dsimp only at hshorter ⊢
  split
  next after heq =>
    obtain ⟨hafter, hlt⟩ := suffix_of_skip heq
    exact ⟨.list fun w hw => (hall w (List.mem_reverse.1 hw)).1,
      .list fun w hw => (hall w (List.mem_reverse.1 hw)).2, hafter.trans hr.rest, hlt.trans hshorter⟩
  next after heq =>
    obtain ⟨hafter, hlt⟩ := suffix_of_skip heq
    have hnext : skip after <:+ cs := (skip_suffix after).trans (hafter.trans hr.rest)
    have hle := (skip_suffix after).length_le
    exact (h.items _ hall (by omega)).imp (fun _ h => h.within hnext) fun _ h => h.within hnext
  next => trivial

theorem members_succ (h : ReadersEnd steps) {read : Table Value} (hnodup : read.names.Nodup)
    (hread : ∀ e ∈ read, Decoded e.2) (hsteps : 2 * cs.length + 2 ≤ steps + 1) :
    Ends (Stop.Shown depth cs) (Taken cs)
      (readMembers (steps + 1) depth (read.map fun e => (.str e.1, e.2)) cs) := by
  unfold readMembers
  split
  next quoted =>
    refine ((stringAt_ends '"' quoted).imp (fun _ h => h.shown) fun _ h => h).bind fun r hr => ?_
    obtain ⟨name, afterName⟩ := r
    dsimp only at hr ⊢
    split
    next afterColon heq =>
      obtain ⟨hcolon, hlt⟩ := suffix_of_skip heq
      have hin : skip afterColon <:+ '"' :: quoted :=
        (skip_suffix _).trans (hcolon.trans (hr.trans (List.suffix_cons ..)))
      have hquoted := hr.length_le
      have hle := (skip_suffix afterColon).length_le
      rw [List.length_cons] at hsteps
      refine ((h.value (by omega)).imp (fun _ h => h.within hin) fun _ h => h).bind fun r hr => ?_
      obtain ⟨v, rest⟩ := r
      have hshorter := hr.shorter
      rw [Value.putEntry_fields]
      have hnodup : (read.put name v).names.Nodup := Table.nodup_names_put hnodup name v
      have hread : ∀ e ∈ read.put name v, Decoded e.2 := by
        intro e he
        rcases Table.mem_put he with rfl | he
        · exact ⟨hr.document, hr.short⟩
        · exact hread e he
      dsimp only at hshorter ⊢
      split
      next after heq =>
        obtain ⟨hafter, hlt⟩ := suffix_of_skip heq
        refine ⟨.object hnodup fun e he => (hread e he).1, .object fun e he => (hread e he).2,
          hafter.trans (hr.rest.trans hin), ?_⟩
        exact Nat.lt_of_lt_of_le (hlt.trans hshorter) hin.length_le
      next after heq =>
        obtain ⟨hafter, hlt⟩ := suffix_of_skip heq
        have hnext : skip after <:+ '"' :: quoted :=
          (skip_suffix after).trans (hafter.trans (hr.rest.trans hin))
        have hle := (skip_suffix after).length_le
        exact (h.members _ hnodup hread (by omega)).imp (fun _ h => h.within hnext)
          fun _ h => h.within hnext
      next => trivial
    next => trivial
  next => trivial

end ReadersEnd

theorem readersEnd (steps : Nat) : ReadersEnd steps := by
  induction steps with
  | zero =>
      exact ⟨fun h => absurd h (by omega), fun _ _ h => absurd h (by omega),
        fun _ _ _ h => absurd h (by omega)⟩
  | succ steps ih =>
      exact ⟨ih.value_succ, fun _ => ih.items_succ, fun _ => ih.members_succ⟩

-- ================================================================ texts

/-- A text shows why it cannot be read. -/
def Failure.Shown (text : String) : Failure → Prop
  | .malformed .. => True
  | .longNumber => LongRun text.toList
  | .tooDeep => depthLimit < openings text.toList

theorem readText_ends (cs : List Char) :
    Ends (Stop.Shown depthLimit cs) Decoded (readText cs) := by
  have hle := (skip_suffix cs).length_le
  have hvalue : Ends (Stop.Shown depthLimit (skip cs)) (Taken (skip cs))
      (readValue (2 * cs.length + 2) depthLimit (skip cs)) := (readersEnd _).value (by omega)
  unfold readText
  refine .ite (fun _ => trivial) fun _ => ?_
  refine (hvalue.imp (fun _ h => h.within (skip_suffix cs)) fun _ h => h).bind fun r hr => ?_
  obtain ⟨v, rest⟩ := r
  dsimp only
  split
  next => exact ⟨hr.document, hr.short⟩
  next => trivial

end Verdict.Json
