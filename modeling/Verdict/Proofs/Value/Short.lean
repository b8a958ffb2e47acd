/-
Values without long numbers. A whole number of too many digits is never
written out, so a message that shows one has no text. In a short value no
whole number is too long, at any depth and in any cell; a short value can
be written, and so can whatever is found in it.

# Vocabulary

- `v.Short`: no whole number in `v` has too many digits.

# Main statements

- `Short.isWritable`: a short value can be written.
- `Short.unrolled`, `Short.get?`: what a look at a short value finds is short.
-/
import Verdict.Proofs.Value.Document
import Verdict.Value.Literal

namespace Verdict.Value

/-- No whole number in a value has too many digits. -/
inductive Short : Value → Prop where
  | null : Short .null
  | bool (b : Bool) : Short (.bool b)
  | int {n : Int} (h : n.natAbs < beyondDigits) : Short (.int n)
  | float (x : Binary64) : Short (.float x)
  | str (s : String) : Short (.str s)
  | bytes (b : List UInt8) : Short (.bytes b)
  | date (d : Date) : Short (.date d)
  | dateTime (t : DateTime) : Short (.dateTime t)
  | list {items : List Value} (h : ∀ v ∈ items, Short v) : Short (.list items)
  | pair {a b : Value} (ha : Short a) (hb : Short b) : Short (.pair a b)
  | map {entries : List (Value × Value)} (hkeys : ∀ e ∈ entries, Short e.1)
      (h : ∀ e ∈ entries, Short e.2) : Short (.map entries)
  | set {items : List Value} (h : ∀ v ∈ items, Short v) : Short (.set items)
  | link (cell : Nat) : Short (.link cell)
  | recurring {cells : List Value} (h : ∀ v ∈ cells, Short v) (cell : Nat) :
      Short (.recurring cells cell)

-- ============================================================== writing

/-- What every cell keeps of what it is given holds along the cells. -/
theorem alongCells_of {α : Type} {P : α → Prop} {again : Nat → α}
    {cells : List ((Nat → α) → α)} (hagain : ∀ n, P (again n))
    (hcells : ∀ make ∈ cells, ∀ far, (∀ n, P (far n)) → P (make far)) (levels : Nat)
    (path : List Nat) (n : Nat) : P (alongCells again cells levels path n) := by
  induction levels generalizing path n with
  | zero => exact hagain n
  | succ levels ih =>
      unfold alongCells
      split
      · exact hagain n
      · split
        next make hmake =>
          exact hcells make (List.mem_of_getElem? hmake) _ fun m => ih (n :: path) m
        next => exact hagain n

theorem allWritable_iff {items : List Value} {far : Nat → Bool} :
    allWritable items far = true ↔ ∀ v ∈ items, writableWith v far = true := by
  induction items with
  | nil => simp [allWritable]
  | cons v items ih => simp [allWritable, ih]

theorem allEntriesWritable_iff {entries : List (Value × Value)} {far : Nat → Bool} :
    allEntriesWritable entries far = true ↔
      ∀ e ∈ entries, writableWith e.1 far = true ∧ writableWith e.2 far = true := by
  induction entries with
  | nil => simp [allEntriesWritable]
  | cons e entries ih => simp [allEntriesWritable, ih, and_assoc]

theorem cellsWritable_eq (cells : List Value) :
    cellsWritable cells = cells.map writableWith := by
  induction cells with
  | nil => rfl
  | cons v cells ih => rw [cellsWritable, ih, List.map_cons]

namespace Short

variable {v w : Value} {items : List Value} {entries : List (Value × Value)}

/-- A short value can be written where its links can. -/
theorem writableWith (h : v.Short) {far : Nat → Bool} (hfar : ∀ n, far n = true) :
    v.writableWith far = true := by
  induction h generalizing far with
  | int h => exact decide_eq_true h
  | list _ ih => exact allWritable_iff.2 fun v hv => ih v hv hfar
  | pair _ _ iha ihb =>
      rw [Value.writableWith, iha hfar, ihb hfar]
      rfl
  | map _ _ ihk ihv =>
      exact allEntriesWritable_iff.2 fun e he => ⟨ihk e he hfar, ihv e he hfar⟩
  | set _ ih => exact allWritable_iff.2 fun v hv => ih v hv hfar
  | link n => exact hfar n
  | recurring _ n ih =>
      unfold Value.writableWith
      rw [cellsWritable_eq]
      refine alongCells_of (P := (· = true)) (fun _ => rfl) (fun make hmake far hfar => ?_) _ _ _
      obtain ⟨v, hv, rfl⟩ := List.mem_map.1 hmake
      exact ih v hv hfar
  | _ => rfl

theorem isWritable (h : v.Short) : v.isWritable = true := h.writableWith fun _ => rfl

/-- A whole number can be written only if it is short. -/
theorem int_iff {n : Int} : (Value.int n).isWritable = true ↔ n.natAbs < beyondDigits := by
  unfold Value.isWritable Value.writableWith
  exact decide_eq_true_iff

-- ================================================================ looks

theorem list_iff : (Value.list items).Short ↔ ∀ v ∈ items, v.Short :=
  ⟨fun h => by cases h with | list h => exact h, .list⟩

theorem map_iff :
    (Value.map entries).Short ↔ ∀ e ∈ entries, e.1.Short ∧ e.2.Short := by
  constructor
  · intro h
    cases h with
    | map hkeys h => exact fun e he => ⟨hkeys e he, h e he⟩
  · exact fun h => .map (fun e he => (h e he).1) fun e he => (h e he).2

/-- What stands in a cell is short from outside the cells. -/
theorem tied {cells : List Value} (hcells : ∀ v ∈ cells, v.Short) (h : v.Short) :
    (tied cells v).Short := by
  fun_induction Value.tied cells v with
  | case1 n => exact .recurring hcells n
  | case2 a b iha ihb =>
      cases h with
      | pair ha hb => exact .pair (iha ha) (ihb hb)
  | case3 v => exact h

theorem unrolled (h : v.Short) : v.unrolled.Short := by
  cases v with
  | recurring cells n =>
      cases h with
      | recurring hcells =>
          unfold Value.unrolled
          dsimp only
          split
          next items hitems =>
            refine .list fun v hv => ?_
            obtain ⟨u, hu, rfl⟩ := List.mem_map.1 hv
            have hcell := hcells _ (List.mem_of_getElem? hitems)
            exact (list_iff.1 hcell u hu).tied hcells
          next entries hentries =>
            refine map_iff.2 fun e he => ?_
            obtain ⟨u, hu, rfl⟩ := List.mem_map.1 he
            have hcell := hcells _ (List.mem_of_getElem? hentries)
            obtain ⟨hkey, hvalue⟩ := map_iff.1 hcell u hu
            exact ⟨hkey, hvalue.tied hcells⟩
          next => exact .null
  | _ => exact h

/-- What is read under a key of a short value is short. -/
theorem get? {name : String} (h : v.Short) (hw : v.get? name = some w) : w.Short := by
  have hv := h.unrolled
  unfold Value.get? at hw
  split at hw
  next entries heq =>
    rw [heq] at hv
    exact (map_iff.1 hv _ (mem_of_lookup hw)).2
  next => cases hw

theorem getD {name : String} (h : v.Short) : ((v.get? name).getD .null).Short := by
  cases hw : v.get? name with
  | none => exact .null
  | some w => exact h.get? hw

-- ============================================================= building

theorem object {entries : List (String × Value)} (h : ∀ e ∈ entries, e.2.Short) :
    (Value.object entries).Short := by
  refine map_iff.2 fun e he => ?_
  obtain ⟨field, hfield, rfl⟩ := List.mem_map.1 he
  exact ⟨.str field.1, h field hfield⟩

theorem texts (ss : List String) : (Value.texts ss).Short := by
  refine .list fun v hv => ?_
  obtain ⟨s, -, rfl⟩ := List.mem_map.1 hv
  exact .str s

end Short

end Verdict.Value
