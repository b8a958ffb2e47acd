/-
Decoded documents as data: what JSON can say, which is null, truth values,
numbers, texts, lists, and mappings without repeated keys. Of such a
document every look tells no more and no less than what is written in it,
and the lemmas here say so look by look. Of any value a look tells as much of
the outermost brackets.

# Vocabulary

- `IsDocument v`: `v` is made of those kinds only.
- `Holds v key w`: `v` is a mapping, and `w` stands in it under the text
  `key`. What is read under a key is what the mapping holds
  (`IsDocument.get?_iff`).
-/
import Mathlib.Data.List.Nodup
import Verdict.Proofs.Outcome
import Verdict.Proofs.Table
import Verdict.Value.Same

namespace Verdict.Value

/-- A value is a decoded document. -/
inductive IsDocument : Value → Prop where
  | null : IsDocument .null
  | bool (b : Bool) : IsDocument (.bool b)
  | int (n : Int) : IsDocument (.int n)
  | float (x : Binary64) : IsDocument (.float x)
  | str (s : String) : IsDocument (.str s)
  | list {items : List Value} (h : ∀ v ∈ items, IsDocument v) : IsDocument (.list items)
  | map {entries : List (Value × Value)} (hkeys : (entries.map (·.1)).Nodup)
      (h : ∀ e ∈ entries, IsDocument e.2) : IsDocument (.map entries)

/-- A value is a mapping in which another stands under a text. -/
def Holds (v : Value) (key : String) (w : Value) : Prop :=
  ∃ entries, v = .map entries ∧ (.str key, w) ∈ entries

variable {v w : Value} {key : String} {entries : List (Value × Value)}

-- ============================================================== mappings

/-- A key that is no text is passed over. -/
theorem lookup_cons_of_ne {k : Value} (hk : ∀ s, k ≠ .str s) :
    lookup ((k, v) :: entries) key = lookup entries key := by
  cases k with
  | str s => exact absurd rfl (hk s)
  | _ => rfl

/-- What is read under a text stands under it. -/
theorem mem_of_lookup (h : lookup entries key = some w) : (.str key, w) ∈ entries := by
  induction entries with
  | nil => cases h
  | cons e entries ih =>
      obtain ⟨k, u⟩ := e
      by_cases hk : ∃ s, k = .str s
      · obtain ⟨s, rfl⟩ := hk
        unfold lookup at h
        split at h
        next hs =>
          injection h with h
          rw [hs, h]
          exact List.mem_cons_self ..
        next => exact List.mem_cons_of_mem _ (ih h)
      · rw [lookup_cons_of_ne fun s hs => hk ⟨s, hs⟩] at h
        exact List.mem_cons_of_mem _ (ih h)

/-- Where no key stands twice, what stands under a text is read under it. -/
theorem lookup_iff_mem (hkeys : (entries.map (·.1)).Nodup) :
    lookup entries key = some w ↔ (.str key, w) ∈ entries := by
  refine ⟨mem_of_lookup, fun h => ?_⟩
  induction entries with
  | nil => cases h
  | cons e entries ih =>
      obtain ⟨k, u⟩ := e
      rw [List.map_cons, List.nodup_cons] at hkeys
      rcases List.mem_cons.1 h with heq | hmem
      · injection heq with hk hu
        rw [← hk, ← hu]
        exact if_pos rfl
      · by_cases hk : ∃ s, k = .str s
        · obtain ⟨s, rfl⟩ := hk
          have hne : s ≠ key := by
            intro heq
            subst heq
            have hin := List.mem_map_of_mem (f := Prod.fst) hmem
            exact hkeys.1 hin
          rw [lookup, if_neg hne]
          exact ih hkeys.2 hmem
        · rw [lookup_cons_of_ne fun s hs => hk ⟨s, hs⟩]
          exact ih hkeys.2 hmem

-- ================================================================ looks

/-- No brackets are left to write out of a text. -/
theorem unrolled_eq_str {s : String} : v.unrolled = .str s ↔ v = .str s := by
  cases v with
  | recurring cells n =>
      unfold unrolled
      dsimp only
      split <;> simp
  | _ => simp [unrolled]

/-- A look that falls back to null has found what is not null. -/
theorem get?_of_getD (h : (v.get? key).getD .null = w) (hw : w.unrolled ≠ .null) :
    v.get? key = some w := by
  cases hget : v.get? key with
  | none =>
      rw [hget] at h
      exact absurd (congrArg unrolled h.symm) hw
  | some u =>
      rw [hget] at h
      exact congrArg some h

/-- What a key is found in is a mapping, and not an empty one. -/
theorem unrolled_of_get? (h : v.get? key = some w) :
    ∃ entry entries, v.unrolled = .map (entry :: entries) := by
  unfold get? at h
  split at h
  next entries hv =>
    cases entries with
    | nil => cases h
    | cons entry entries => exact ⟨entry, entries, hv⟩
  next => cases h

theorem isMap_of_get? (h : v.get? key = some w) : v.isMap = true := by
  obtain ⟨entry, entries, hv⟩ := unrolled_of_get? h
  unfold isMap
  rw [hv]

theorem get?_of_mem (hv : v.unrolled = .map entries)
    (hnodup : (entries.map (·.1)).Nodup) (h : (.str key, w) ∈ entries) : v.get? key = some w := by
  unfold get?
  rw [hv]
  exact (lookup_iff_mem hnodup).2 h

namespace IsDocument

/-- No brackets of a document are left to write out. -/
theorem unrolled (hv : v.IsDocument) : v.unrolled = v := by
  cases hv <;> rfl

/-- What is read under a key is what stands under it. -/
theorem get?_iff (hv : v.IsDocument) : v.get? key = some w ↔ v.Holds key w := by
  unfold get? Holds
  rw [hv.unrolled]
  cases hv with
  | map hkeys _ => simp [lookup_iff_mem hkeys]
  | _ => simp

/-- Under a key stands one value. -/
theorem eq_of_get? {u : Value} (hv : v.IsDocument) (h : v.Holds key w)
    (hget : v.get? key = some u) : u = w := by
  rw [hv.get?_iff.2 h] at hget
  exact (Option.some.inj hget).symm

theorem get?_eq_none_iff (hv : v.IsDocument) :
    v.get? key = none ↔ ∀ w, ¬ v.Holds key w := by
  rw [Option.eq_none_iff_forall_ne_some]
  exact forall_congr' fun w => not_congr hv.get?_iff

theorem hasKey_iff (hv : v.IsDocument) : v.hasKey key = true ↔ ∃ w, v.Holds key w := by
  unfold hasKey
  rw [Option.isSome_iff_exists]
  exact exists_congr fun w => hv.get?_iff

/-- What stands in a document is a document. -/
theorem held (hv : v.IsDocument) (h : v.Holds key w) : w.IsDocument := by
  obtain ⟨entries, rfl, hw⟩ := h
  cases hv with
  | map _ hall => exact hall _ hw

theorem item {items : List Value} (hv : (Value.list items).IsDocument)
    (h : w ∈ items) : w.IsDocument := by
  cases hv with
  | list hall => exact hall w h

end IsDocument

theorem text?_iff {s : String} : v.text? = some s ↔ v = .str s := by
  cases v <;> simp [text?]

theorem mapM_text?_iff {items : List Value} {ss : List String} :
    items.mapM text? = some ss ↔ items = ss.map .str := by
  induction items generalizing ss with
  | nil => cases ss <;> simp
  | cons v items ih =>
      rw [List.mapM_cons]
      cases ss with
      | nil => simp [Option.bind_eq_some_iff]
      | cons s ss =>
          simp [Option.bind_eq_some_iff, ih, text?_iff]

theorem IsDocument.textList?_iff {ss : List String} (hv : v.IsDocument) :
    v.textList? = some ss ↔ v = .texts ss := by
  unfold textList? texts
  rw [hv.unrolled]
  cases v <;> simp [mapM_text?_iff]

-- ============================================================== objects

/-- Under text keys a mapping is read as the table of its entries is. -/
theorem lookup_fields (fields : Table Value) (key : String) :
    lookup (fields.map fun e => (.str e.1, e.2)) key = fields.at? key := by
  induction fields with
  | nil => rfl
  | cons e fields ih =>
      obtain ⟨name, v⟩ := e
      rw [List.map_cons, lookup, Table.at?, ih]

theorem sameKey_str (k l : String) : sameKey (.str k) (.str l) = decide (k = l) := by
  unfold sameKey same sameLeaf
  show (equal (.str k) (.str l) || decide (k = l)) = _
  unfold equal
  rw [Bool.or_self]

/-- Under text keys an entry is put as it is put in a table. -/
theorem putEntry_fields (fields : Table Value) (name : String) (v : Value) :
    putEntry (fields.map fun e => (.str e.1, e.2)) (.str name) v
      = (fields.put name v).map fun e => (.str e.1, e.2) := by
  induction fields with
  | nil => rfl
  | cons e fields ih =>
      obtain ⟨key, w⟩ := e
      rw [List.map_cons, putEntry, Table.put, sameKey_str, ih]
      by_cases hkey : key = name
      · rw [if_pos (decide_eq_true hkey), if_pos hkey]
        rfl
      · rw [if_neg (by rwa [decide_eq_true_iff]), if_neg hkey]
        rfl

/-- A new name goes last. -/
theorem putEntry_new {e : String × Value} {read es : Table Value}
    (hkeys : (Table.names (read ++ e :: es)).Nodup) :
    putEntry (read.map fun e => (.str e.1, e.2)) (.str e.1) e.2
      = (read ++ [e]).map fun e => (.str e.1, e.2) := by
  have hnew : e.1 ∉ read.names := by
    intro hmem
    unfold Table.names at hkeys hmem
    rw [List.map_append, List.map_cons] at hkeys
    exact (List.nodup_append.1 hkeys).2.2 e.1 hmem e.1 (List.mem_cons_self ..) rfl
  rw [putEntry_fields, Table.put_of_not_mem hnew]

@[simp] theorem get?_object (fields : Table Value) (key : String) :
    (object fields).get? key = fields.at? key :=
  lookup_fields fields key

/-- What stands in a mapping with text keys is what it was made of. -/
@[simp] theorem holds_object {fields : List (String × Value)} :
    (object fields).Holds key w ↔ (key, w) ∈ fields := by
  unfold object Holds
  simp [and_comm]

theorem IsDocument.object {fields : List (String × Value)}
    (hkeys : (fields.map (·.1)).Nodup) (h : ∀ e ∈ fields, e.2.IsDocument) :
    (Value.object fields).IsDocument := by
  refine .map ?_ ?_
  · rw [List.map_map]
    have hstr : Function.Injective Value.str := fun s t h => by injection h
    have hmap := List.Nodup.map hstr hkeys
    rwa [List.map_map] at hmap
  · intro e he
    obtain ⟨field, hfield, rfl⟩ := List.mem_map.1 he
    exact h field hfield

theorem IsDocument.texts (ss : List String) : (Value.texts ss).IsDocument := by
  refine .list fun v hv => ?_
  obtain ⟨s, -, rfl⟩ := List.mem_map.1 hv
  exact .str s

end Verdict.Value
