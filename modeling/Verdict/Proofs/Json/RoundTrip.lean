/-
Values whose text gives them back. Null, truth values, texts and whole numbers
that are not too long are written so that nothing of them is lost, and so are
lists and mappings of such values whose keys are distinct texts. The layout does
not matter: what it sets between items are blanks, which the reader skips.

# Vocabulary

- `Faithful d v`: the value is of these, and opens at most `d` brackets at once.
- `Opens cs`: the text begins as written values do, so it is neither skipped nor
  taken for the end of what it stands in.
- `Reads depth layout v`: the text of `v` is read as `v`, whatever follows it.

# Main statements

- `readValue_write`: a faithful value is read from its text, in any layout.
- `read_pretty`: what is spread over lines is read as the value it was made of.
-/
import Verdict.Proofs.Json.Written
import Verdict.Proofs.Value.Document

namespace Verdict.Json

variable {layout : Layout} {d depth steps : Nat} {v : Value} {rest : List Char}

-- ================================================================ blanks

/-- A text is nothing but blanks. -/
def Blank (cs : List Char) : Prop := ∀ c ∈ cs, isSpace c = true

/-- A text begins as written values do. -/
def Opens (cs : List Char) : Prop :=
  ∃ c more, cs = c :: more ∧ isSpace c = false ∧ c ≠ ']' ∧ c ≠ '\x7d' ∧ c ≠ '\ufeff'

theorem Opens.append {cs : List Char} (h : Opens cs) (rest : List Char) : Opens (cs ++ rest) := by
  obtain ⟨c, more, rfl, hc⟩ := h
  exact ⟨c, more ++ rest, rfl, hc⟩

theorem skip_append {blanks : List Char} (h : Blank blanks) (cs : List Char) :
    skip (blanks ++ cs) = skip cs :=
  List.dropWhile_append_of_pos h

/-- Texts set apart begin as the first of them does. -/
theorem Opens.intercalate {cs : List Char} (h : Opens cs) (gap : List Char)
    (more : List (List Char)) : Opens (gap.intercalate (cs :: more)) := by
  cases more with
  | nil =>
      rw [List.intercalate_singleton]
      exact h
  | cons next more =>
      rw [List.intercalate_cons_cons, List.append_assoc]
      exact h.append _

theorem Opens.skip_eq {cs : List Char} (h : Opens cs) : skip cs = cs := by
  obtain ⟨c, more, rfl, hc, -⟩ := h
  exact List.dropWhile_cons_of_neg (by rw [hc]; exact Bool.false_ne_true)

theorem stops_cons {c : Char}
    (h : Text.isAsciiDigit c = false ∧ c ≠ '.' ∧ c ≠ 'e' ∧ c ≠ 'E') (rest : List Char) :
    Stops (c :: rest) := by
  intro a cs heq
  injection heq with ha
  rw [← ha]
  exact h

theorem stops_nil : Stops [] := fun _ _ h => nomatch h

/-- Blanks between a number and what follows do not go on like a number. -/
theorem Stops.append {blanks : List Char} (h : Blank blanks) (hrest : Stops rest) :
    Stops (blanks ++ rest) := by
  cases blanks with
  | nil => exact hrest
  | cons b blanks =>
      have hspace := h b (List.mem_cons_self ..)
      unfold isSpace at hspace
      refine stops_cons ?_ _
      simp only [Bool.or_eq_true, decide_eq_true_iff] at hspace
      rcases hspace with ((rfl | rfl) | rfl) | rfl
      · decide
      · decide
      · decide
      · decide

theorem margin_blank (layout : Layout) : Blank layout.margin := by
  cases layout with
  | line => exact fun c hc => absurd hc List.not_mem_nil
  | spread level =>
      intro c hc
      rcases List.mem_cons.1 hc with rfl | hc
      · rfl
      · rw [(List.mem_replicate.1 hc).2]
        rfl

theorem gap_eq (layout : Layout) : ∃ blanks, layout.gap = ',' :: blanks ∧ Blank blanks := by
  cases layout with
  | line =>
      refine ⟨[' '], rfl, fun c hc => ?_⟩
      rw [List.mem_singleton.1 hc]
      rfl
  | spread level => exact ⟨_, rfl, margin_blank (.spread level)⟩

/-- A text that others follow is followed by a comma and blanks. -/
theorem intercalate_gap (layout : Layout) (text next : List Char) (texts : List (List Char)) :
    ∃ blanks, Blank blanks ∧ layout.gap.intercalate (text :: next :: texts)
      = text ++ ',' :: (blanks ++ layout.gap.intercalate (next :: texts)) := by
  obtain ⟨blanks, hgap, hblanks⟩ := gap_eq layout
  refine ⟨blanks, hblanks, ?_⟩
  rw [List.intercalate_cons_cons, hgap, List.append_assoc]
  rfl

-- ================================================================ leaves

/-- The text of a value is read as the value, whatever follows it. A value takes a
step of the reader, and so does its place in a list, hence two for each character. -/
def Reads (depth : Nat) (layout : Layout) (v : Value) : Prop :=
  ∀ steps rest, 2 * (writeValue layout v).length ≤ steps → Stops rest →
    readValue steps depth (writeValue layout v ++ rest) = .ok (v, rest)

/-- What begins neither like a string nor like a bracket is a word or a number. -/
theorem readValue_plain {c : Char} {more : List Char} (hc : c ≠ '"' ∧ c ≠ '[' ∧ c ≠ '\x7b') :
    readValue (steps + 1) depth (c :: more) = readPlain (c :: more) := by
  unfold readValue
  split
  next heq =>
    injection heq with heq
    exact absurd heq hc.1
  next heq =>
    injection heq with heq
    exact absurd heq hc.2.1
  next heq =>
    injection heq with heq
    exact absurd heq hc.2.2
  next => rfl

/-- A whole number begins with a digit or a minus. -/
theorem exists_head_toString (n : Int) : ∃ c more, (toString n).toList = c :: more
    ∧ ∀ b, Text.isAsciiDigit b = false ∧ b ≠ '-' → c ≠ b := by
  rw [toList_toString]
  split
  next => exact ⟨'-', _, rfl, fun b hb => hb.2.symm⟩
  next =>
    obtain ⟨c, more, hcons, hdigit⟩ := toDigits_eq_digit_cons n.natAbs
    refine ⟨c, more, hcons, fun b hb heq => ?_⟩
    rw [heq, hb.1] at hdigit
    cases hdigit

/-- No word goes on like a number after its sign. -/
theorem readSign_word {w : List Char × Value} (hw : w ∈ wordValues) (rest : List Char) :
    ∃ c more, (readSign (w.1 ++ rest)).2 = c :: more ∧ Text.isAsciiDigit c = false := by
  unfold wordValues at hw
  simp only [List.mem_cons, List.not_mem_nil, or_false] at hw
  rcases hw with rfl | rfl | rfl | rfl | rfl | rfl
  all_goals exact ⟨_, _, rfl, rfl⟩

/-- A written number is taken for no word. -/
theorem readPlain_toString (n : Int) (rest : List Char) :
    readPlain ((toString n).toList ++ rest) = readNumber ((toString n).toList ++ rest) := by
  have hnone : wordValues.find? (fun w => w.1.isPrefixOf ((toString n).toList ++ rest)) = none := by
    rw [List.find?_eq_none]
    intro w hw hprefix
    obtain ⟨after, hafter⟩ := List.isPrefixOf_iff_prefix.1 hprefix
    obtain ⟨c, more, hword, hc⟩ := readSign_word hw after
    obtain ⟨digit, digits, hcons, hdigit⟩ := toDigits_eq_digit_cons n.natAbs
    rw [hafter, readSign_toString, hcons] at hword
    injection hword with heq
    rw [heq, hc] at hdigit
    cases hdigit
  unfold readPlain
  rw [hnone]

-- ================================================================ values

/-- A value of which nothing is lost in its text, with at most so many brackets
open at once. -/
inductive Faithful : Nat → Value → Prop where
  | null {d : Nat} : Faithful d .null
  | bool {d : Nat} (b : Bool) : Faithful d (.bool b)
  | int {d : Nat} {n : Int} (h : n.natAbs < Value.beyondDigits) : Faithful d (.int n)
  | str {d : Nat} (s : String) : Faithful d (.str s)
  | list {d : Nat} {items : List Value} (h : ∀ v ∈ items, Faithful d v) :
      Faithful (d + 1) (.list items)
  | object {d : Nat} {fields : Table Value} (hkeys : fields.names.Nodup)
      (h : ∀ e ∈ fields, Faithful d e.2) : Faithful (d + 1) (.object fields)

/-- A list of texts is written without loss. -/
theorem Faithful.texts (texts : List String) : Faithful (d + 1) (.texts texts) :=
  .list (List.forall_mem_map.2 fun s _ => .str s)

theorem opens_enclose {layout : Layout} {opening closing : Char} {items : List (List Char)}
    (h : isSpace opening = false ∧ opening ≠ ']' ∧ opening ≠ '\x7d' ∧ opening ≠ '\ufeff') :
    Opens (enclose layout opening closing items) := by
  unfold enclose
  split
  · exact ⟨opening, _, rfl, h⟩
  · exact ⟨opening, _, rfl, h⟩

theorem opens_writeValue (h : Faithful d v) (layout : Layout) : Opens (writeValue layout v) := by
  cases h with
  | null => exact ⟨'n', _, rfl, by decide⟩
  | bool b =>
      cases b with
      | true => exact ⟨'t', _, rfl, by decide⟩
      | false => exact ⟨'f', _, rfl, by decide⟩
  | @int _ n h =>
      obtain ⟨c, more, htext, hne⟩ := exists_head_toString n
      have hspace : isSpace c = false := by
        unfold isSpace
        rw [decide_eq_false (hne ' ' (by decide)), decide_eq_false (hne '\t' (by decide)),
          decide_eq_false (hne '\n' (by decide)), decide_eq_false (hne '\r' (by decide))]
        rfl
      unfold writeValue
      exact ⟨c, more, htext, hspace, hne _ (by decide), hne _ (by decide), hne _ (by decide)⟩
  | str s => exact ⟨'"', _, rfl, by decide⟩
  | list h =>
      unfold writeValue
      exact opens_enclose (by decide)
  | object hkeys h =>
      unfold Value.object writeValue
      exact opens_enclose (by decide)

theorem writeItems_eq_map (layout : Layout) (items : List Value) :
    writeItems layout items = items.map (writeValue layout) := by
  induction items with
  | nil => rfl
  | cons v items ih => rw [writeItems, ih, List.map_cons]

/-- The text of an entry. -/
def entryText (layout : Layout) (e : String × Value) : List Char :=
  writeString e.1 ++ ':' :: ' ' :: writeValue layout e.2

theorem opens_entryText (e : String × Value) : Opens (entryText layout e) :=
  ⟨'"', _, rfl, by decide⟩

theorem writeEntries_eq_map (layout : Layout) (fields : Table Value) :
    writeEntries layout (fields.map fun e => (.str e.1, e.2)) = fields.map (entryText layout) := by
  induction fields with
  | nil => rfl
  | cons e fields ih =>
      rw [List.map_cons, writeEntries, ih, List.map_cons]
      rfl

-- ================================================================= lists

/-- Reading an item goes on at what follows it. -/
theorem readItems_step (hv : Reads depth layout v)
    (hsteps : 2 * (writeValue layout v).length ≤ steps) (hrest : Stops rest)
    (read : List Value) :
    readItems (steps + 1) depth read (writeValue layout v ++ rest)
      = match skip rest with
        | ']' :: after => .ok (.list (v :: read).reverse, after)
        | ',' :: after => readItems steps depth (v :: read) (skip after)
        | left => refuse .comma left := by
  rw [readItems, hv steps rest hsteps hrest]
  rfl

/-- The items of a list are read one by one, each after the gap before it. -/
theorem readItems_write {v : Value} {vs : List Value}
    (hopens : ∀ w ∈ v :: vs, Opens (writeValue layout w))
    (hreads : ∀ w ∈ v :: vs, Reads depth layout w) {blanks : List Char} (hblanks : Blank blanks)
    {read : List Value}
    (hsteps : 2 * (layout.gap.intercalate ((v :: vs).map (writeValue layout))).length < steps) :
    readItems steps depth read
        (layout.gap.intercalate ((v :: vs).map (writeValue layout)) ++ (blanks ++ ']' :: rest))
      = .ok (.list (read.reverse ++ v :: vs), rest) := by
  obtain ⟨steps, rfl⟩ := Nat.exists_eq_add_one_of_ne_zero (Nat.ne_zero_of_lt hsteps)
  induction vs generalizing v read steps with
  | nil =>
      rw [List.map_singleton, List.intercalate_singleton] at hsteps ⊢
      rw [readItems_step (hreads v (List.mem_cons_self ..)) (Nat.le_of_lt_succ hsteps)
        ((stops_cons (by decide) rest).append hblanks), skip_append hblanks, List.reverse_cons]
      rfl
  | cons w vs ih =>
      rw [List.forall_mem_cons] at hopens hreads
      have hnext : Opens (layout.gap.intercalate ((w :: vs).map (writeValue layout))) :=
        (hopens.2 w (List.mem_cons_self ..)).intercalate _ _
      obtain ⟨gap, hblank, hsplit⟩ := intercalate_gap layout (writeValue layout v)
        (writeValue layout w) (vs.map (writeValue layout))
      rw [List.map_cons, List.map_cons, hsplit, ← List.map_cons] at hsteps ⊢
      simp only [List.length_append, List.length_cons] at hsteps
      obtain ⟨steps, rfl⟩ := Nat.exists_eq_add_one_of_ne_zero (n := steps) (by omega)
      rw [List.append_assoc, List.cons_append, List.append_assoc,
        readItems_step hreads.1 (by omega) (stops_cons (by decide) _)]
      show readItems (steps + 1) depth (v :: read) (skip (gap ++ _)) = _
      rw [skip_append hblank, (hnext.append _).skip_eq,
        ih hopens.2 hreads.2 steps (by omega), List.reverse_cons, List.append_assoc]
      rfl

-- ============================================================== mappings

/-- Reading a member goes on at what follows it. -/
theorem readMembers_step {e : String × Value} (hopens : Opens (writeValue layout e.2))
    (he : Reads depth layout e.2) (hsteps : 2 * (entryText layout e).length ≤ steps)
    (hrest : Stops rest) (read : List (Value × Value)) :
    readMembers (steps + 1) depth read (entryText layout e ++ rest)
      = match skip rest with
        | '\x7d' :: after => .ok (.map (Value.putEntry read (.str e.1) e.2), after)
        | ',' :: after => readMembers steps depth (Value.putEntry read (.str e.1) e.2) (skip after)
        | left => refuse .comma left := by
  have hshape : entryText layout e ++ rest
      = writeString e.1 ++ ':' :: ' ' :: (writeValue layout e.2 ++ rest) := by
    unfold entryText
    rw [List.append_assoc]
    rfl
  have hskip : skip (' ' :: (writeValue layout e.2 ++ rest)) = writeValue layout e.2 ++ rest :=
    (hopens.append rest).skip_eq
  have hlength : 2 * (writeValue layout e.2).length ≤ steps := by
    unfold entryText at hsteps
    rw [List.length_append, List.length_cons, List.length_cons] at hsteps
    omega
  have hname := stringAt_writeString e.1 (':' :: ' ' :: (writeValue layout e.2 ++ rest))
  rw [hshape]
  show (stringAt (writeString e.1 ++ ':' :: ' ' :: (writeValue layout e.2 ++ rest)) >>= _) = _
  rw [hname]
  show (readValue steps depth (skip (' ' :: (writeValue layout e.2 ++ rest))) >>= _) = _
  rw [hskip, he steps rest hlength hrest]
  rfl

/-- The members of a mapping are read one by one, each after the gap before it. -/
theorem readMembers_write {e : String × Value} {es read : Table Value}
    (hopens : ∀ m ∈ e :: es, Opens (writeValue layout m.2))
    (hreads : ∀ m ∈ e :: es, Reads depth layout m.2) {blanks : List Char}
    (hblanks : Blank blanks) (hkeys : (Table.names (read ++ e :: es)).Nodup)
    (hsteps : 2 * (layout.gap.intercalate ((e :: es).map (entryText layout))).length < steps) :
    readMembers steps depth (read.map fun e => (.str e.1, e.2))
        (layout.gap.intercalate ((e :: es).map (entryText layout)) ++ (blanks ++ '\x7d' :: rest))
      = .ok (.object (read ++ e :: es), rest) := by
  obtain ⟨steps, rfl⟩ := Nat.exists_eq_add_one_of_ne_zero (Nat.ne_zero_of_lt hsteps)
  induction es generalizing e read steps with
  | nil =>
      rw [List.map_singleton, List.intercalate_singleton] at hsteps ⊢
      rw [readMembers_step (hopens e (List.mem_cons_self ..)) (hreads e (List.mem_cons_self ..))
        (Nat.le_of_lt_succ hsteps) ((stops_cons (by decide) rest).append hblanks),
        skip_append hblanks, Value.putEntry_new hkeys]
      rfl
  | cons m es ih =>
      rw [List.forall_mem_cons] at hopens hreads
      have hnext : Opens (layout.gap.intercalate ((m :: es).map (entryText layout))) :=
        (opens_entryText m).intercalate _ _
      obtain ⟨gap, hblank, hsplit⟩ := intercalate_gap layout (entryText layout e)
        (entryText layout m) (es.map (entryText layout))
      rw [List.map_cons, List.map_cons, hsplit, ← List.map_cons] at hsteps ⊢
      simp only [List.length_append, List.length_cons] at hsteps
      obtain ⟨steps, rfl⟩ := Nat.exists_eq_add_one_of_ne_zero (n := steps) (by omega)
      rw [List.append_assoc, List.cons_append, List.append_assoc,
        readMembers_step hopens.1 hreads.1 (by omega) (stops_cons (by decide) _),
        Value.putEntry_new hkeys]
      rw [List.append_cons] at hkeys
      show readMembers (steps + 1) depth _ (skip (gap ++ _)) = _
      rw [skip_append hblank, (hnext.append _).skip_eq,
        ih hopens.2 hreads.2 hkeys steps (by omega), List.append_assoc]
      rfl

-- ============================================================ round trip

/-- The items of a bracket stand between blanks. -/
theorem enclose_cons {layout : Layout} {opening closing : Char} (text : List Char)
    (texts : List (List Char)) :
    enclose layout opening closing (text :: texts)
      = opening :: (layout.inner.margin ++ (layout.inner.gap.intercalate (text :: texts)
        ++ (layout.margin ++ [closing]))) := by
  unfold enclose
  rw [if_neg (by simp)]
  simp

/-- A list is read from its first item on. -/
theorem readValue_list {blanks cs : List Char} (hblanks : Blank blanks) (hcs : Opens cs) :
    readValue (steps + 1) (depth + 1) ('[' :: (blanks ++ cs)) = readItems steps depth [] cs := by
  have hskip : skip (blanks ++ cs) = cs := by rw [skip_append hblanks, hcs.skip_eq]
  obtain ⟨c, more, rfl, -, hc, -⟩ := hcs
  unfold readValue
  split
  next heq => exact absurd (List.head_eq_of_cons_eq heq) (by decide)
  next inside heq =>
    injection heq with _ hinside
    rw [← hinside, hskip]
    split
    next hdepth => cases hdepth
    next heq => exact absurd (List.head_eq_of_cons_eq heq) hc
    next hdepth _ =>
      injection hdepth with hdepth
      rw [hdepth]
  next heq => exact absurd (List.head_eq_of_cons_eq heq) (by decide)
  next hno _ => exact absurd rfl (hno _)

/-- A mapping is read from its first member on. -/
theorem readValue_map {blanks cs : List Char} (hblanks : Blank blanks) (hcs : Opens cs) :
    readValue (steps + 1) (depth + 1) ('\x7b' :: (blanks ++ cs)) = readMembers steps depth [] cs := by
  have hskip : skip (blanks ++ cs) = cs := by rw [skip_append hblanks, hcs.skip_eq]
  obtain ⟨c, more, rfl, -, -, hc, -⟩ := hcs
  unfold readValue
  split
  next heq => exact absurd (List.head_eq_of_cons_eq heq) (by decide)
  next heq => exact absurd (List.head_eq_of_cons_eq heq) (by decide)
  next inside heq =>
    injection heq with _ hinside
    rw [← hinside, hskip]
    split
    next hdepth => cases hdepth
    next heq => exact absurd (List.head_eq_of_cons_eq heq) hc
    next hdepth _ =>
      injection hdepth with hdepth
      rw [hdepth]
  next hno => exact absurd rfl (hno _)

/-- A value that begins as written values do is read where no steps are wanting. -/
theorem Reads.of_opens (hopens : Opens (writeValue layout v))
    (h : ∀ steps rest, 2 * (writeValue layout v).length ≤ steps + 1 → Stops rest →
      readValue (steps + 1) depth (writeValue layout v ++ rest) = .ok (v, rest)) :
    Reads depth layout v := by
  intro steps rest hsteps hrest
  obtain ⟨c, more, heq, -⟩ := hopens
  obtain ⟨steps, rfl⟩ := Nat.exists_eq_add_one_of_ne_zero (n := steps) (by
    rw [heq, List.length_cons] at hsteps
    omega)
  exact h steps rest hsteps hrest

/-- A faithful value is read from its text, in any layout. -/
theorem readValue_write (h : Faithful d v) (hd : d ≤ depth) (layout : Layout) :
    Reads depth layout v := by
  induction h generalizing depth layout with
  | @null d =>
    exact .of_opens (opens_writeValue (Faithful.null (d := d)) layout) fun steps rest _ _ => rfl
  | bool b =>
    refine .of_opens (opens_writeValue (d := 0) (.bool b) layout) fun steps rest _ _ => ?_
    cases b with
    | true => rfl
    | false => rfl
  | @int _ n h =>
    refine .of_opens (opens_writeValue (d := 0) (.int h) layout) fun steps rest _ hrest => ?_
    obtain ⟨c, more, htext, hne⟩ := exists_head_toString n
    have hread := readNumber_toString h hrest
    rw [← readPlain_toString, htext] at hread
    unfold writeValue
    rw [htext, List.cons_append, readValue_plain ⟨hne _ (by decide), hne _ (by decide),
      hne _ (by decide)⟩]
    exact hread
  | str s =>
    refine .of_opens (opens_writeValue (d := 0) (.str s) layout) fun steps rest _ hrest => ?_
    show (stringAt (writeString s ++ rest) >>= _) = _
    rw [stringAt_writeString]
    rfl
  | @list d items h ih =>
    obtain ⟨depth, rfl⟩ := Nat.exists_eq_add_one_of_ne_zero (n := depth) (by omega)
    refine .of_opens (opens_writeValue (.list h) layout) fun steps rest hsteps hrest => ?_
    unfold writeValue at hsteps ⊢
    rw [writeItems_eq_map] at hsteps ⊢
    cases items with
    | nil => rfl
    | cons v vs => 
      have hopens : ∀ w ∈ v :: vs, Opens (writeValue layout.inner w) :=
        fun w hw => opens_writeValue (h w hw) _
      have hreads : ∀ w ∈ v :: vs, Reads depth layout.inner w :=
        fun w hw => ih w hw (Nat.le_of_succ_le_succ hd) _
      have hfirst : Opens (layout.inner.gap.intercalate
          ((v :: vs).map (writeValue layout.inner))) :=
        (hopens v (List.mem_cons_self ..)).intercalate _ _
      rw [List.map_cons, enclose_cons, ← List.map_cons] at hsteps ⊢
      simp only [List.length_append, List.length_cons] at hsteps
      rw [List.cons_append, List.append_assoc, List.append_assoc, List.append_assoc,
        readValue_list (margin_blank _) (hfirst.append _)]
      exact readItems_write hopens hreads (margin_blank _) (by omega)
  | @object d fields hkeys h ih =>
    obtain ⟨depth, rfl⟩ := Nat.exists_eq_add_one_of_ne_zero (n := depth) (by omega)
    refine .of_opens (opens_writeValue (.object hkeys h) layout) fun steps rest hsteps hrest => ?_
    unfold Value.object writeValue at hsteps ⊢
    rw [writeEntries_eq_map] at hsteps ⊢
    cases fields with
    | nil => rfl
    | cons e es =>
      have hopens : ∀ m ∈ e :: es, Opens (writeValue layout.inner m.2) :=
        fun m hm => opens_writeValue (h m hm) _
      have hreads : ∀ m ∈ e :: es, Reads depth layout.inner m.2 :=
        fun m hm => ih m hm (Nat.le_of_succ_le_succ hd) _
      have hfirst : Opens (layout.inner.gap.intercalate
          ((e :: es).map (entryText layout.inner))) := (opens_entryText e).intercalate _ _
      rw [List.map_cons, enclose_cons, ← List.map_cons] at hsteps ⊢
      simp only [List.length_append, List.length_cons] at hsteps
      rw [List.cons_append, List.append_assoc, List.append_assoc, List.append_assoc,
        readValue_map (margin_blank _) (hfirst.append _)]
      have hkeys : (Table.names ([] ++ e :: es)).Nodup := hkeys
      exact readMembers_write hopens hreads (margin_blank _) hkeys (by omega)

/-- What was spread over lines is read as the value it was made of. -/
theorem read_pretty (h : Faithful depthLimit v) : read (pretty v) = .ok v := by
  have hopens := opens_writeValue h (.spread 0)
  have hread := readValue_write h (Nat.le_refl _) (.spread 0)
    (2 * (writeValue (.spread 0) v).length + 2) [] (Nat.le_add_right _ _) stops_nil
  have hmark : (writeValue (.spread 0) v).head? ≠ some '\ufeff' := by
    obtain ⟨c, more, heq, -, -, -, hc⟩ := hopens
    rw [heq]
    exact fun h => hc (Option.some.inj h)
  have htext : readText (writeValue (.spread 0) v) = .ok v := by
    rw [List.append_nil] at hread
    unfold readText
    rw [if_neg hmark, hopens.skip_eq]
    dsimp only [bind, Except.bind]
    rw [hread]
    rfl
  unfold read pretty
  rw [String.toList_ofList]
  dsimp only
  rw [htext]

end Verdict.Json
