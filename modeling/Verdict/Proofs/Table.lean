/-
Tables as sets of entries: reading a name against standing in the list,
and what rewriting the entries does to the names. A table in which names
stand twice is read at the first; most tables here have no such names, and
there reading and standing in the list are one.

A table is `Part` of another when it shows nothing that the other does not, and
shows it under the same names. So are some of its entries, and all of them in
another order.
-/
import Mathlib.Data.List.Forall2
import Mathlib.Data.List.Nodup
import Verdict.Proofs.Pairs
import Verdict.Table

namespace Verdict.Table

variable {α β : Type _} {t : Table α} {name : String} {a : α}

-- ========================================================== membership

theorem has_iff : t.has name = true ↔ name ∈ t.names := by
  unfold has
  exact List.contains_iff_mem

/-- What is read under a name stands there. -/
theorem mem_of_at? (h : t.at? name = some a) : (name, a) ∈ t := by
  induction t with
  | nil => cases h
  | cons e t ih =>
      obtain ⟨key, b⟩ := e
      unfold at? at h
      split at h
      next hk =>
        injection h with h
        rw [hk, h]
        exact List.mem_cons_self ..
      next => exact List.mem_cons_of_mem _ (ih h)

theorem mem_names_of_at? (h : t.at? name = some a) : name ∈ t.names :=
  List.mem_map_of_mem (f := Prod.fst) (mem_of_at? h)

/-- A name that stands in a table has an entry. -/
theorem exists_at? (h : name ∈ t.names) : ∃ a, t.at? name = some a := by
  cases ha : t.at? name with
  | none => exact absurd h (at?_eq_none_iff.1 ha)
  | some a => exact ⟨a, rfl⟩

/-- Where no name stands twice, every entry is read under its name. -/
theorem at?_of_mem (hnd : t.names.Nodup) (h : (name, a) ∈ t) :
    t.at? name = some a := by
  induction t with
  | nil => cases h
  | cons e t ih =>
      obtain ⟨key, b⟩ := e
      rw [names_cons, List.nodup_cons] at hnd
      rcases List.mem_cons.1 h with heq | hmem
      · injection heq with hk hb
        rw [at?, if_pos hk.symm, hb]
      · have hne : key ≠ name := by
          intro heq
          subst heq
          exact hnd.1 (List.mem_map_of_mem (f := Prod.fst) hmem)
        rw [at?, if_neg hne]
        exact ih hnd.2 hmem

theorem at?_iff_mem (hnd : t.names.Nodup) :
    t.at? name = some a ↔ (name, a) ∈ t :=
  ⟨mem_of_at?, at?_of_mem hnd⟩

-- ==================================================== rewritten entries

/-- Rewriting what stands under the names keeps the names. -/
theorem names_map (f : α → β) (t : Table α) :
    names (t.map fun e => (e.1, f e.2)) = t.names := by
  unfold names
  rw [List.map_map]
  rfl

theorem at?_map (f : α → β) (t : Table α) (name : String) :
    at? (t.map fun e => (e.1, f e.2)) name = (t.at? name).map f := by
  induction t with
  | nil => rfl
  | cons e t ih =>
      obtain ⟨key, b⟩ := e
      rw [List.map_cons, at?, at?, ih]
      split <;> rfl

-- ======================================================= tables of lists

/-- A new name goes last. -/
theorem put_of_not_mem (h : name ∉ t.names) : t.put name a = t ++ [(name, a)] := by
  induction t with
  | nil => rfl
  | cons e t ih =>
      obtain ⟨key, b⟩ := e
      rw [names_cons, List.mem_cons, not_or] at h
      rw [put, if_neg (Ne.symm h.1), ih h.2]
      rfl

private theorem foldl_put_of_nodup (entries : List (String × α)) :
    ∀ t : Table α, (t.names ++ entries.map (·.1)).Nodup →
      entries.foldl (fun t e => put t e.1 e.2) t = t ++ entries := by
  induction entries with
  | nil => intro t _; simp
  | cons e entries ih =>
      intro t h
      rw [List.map_cons, List.append_cons] at h
      have hnew : e.1 ∉ t.names := by
        have hsplit := (List.nodup_append.1 h).1
        exact fun hmem => (List.nodup_append.1 hsplit).2.2 _ hmem _
          (List.mem_singleton_self _) rfl
      rw [List.foldl_cons, put_of_not_mem hnew, ih]
      · simp
      · have hnames : names (t ++ [(e.1, e.2)]) = t.names ++ [e.1] := by
          unfold names
          simp
        rw [hnames]
        exact h

/-- What holds of the empty table and is kept by every write of an entry holds
of the table of the entries. -/
theorem ofEntries_induct {P : Table α → Prop} {entries : List (String × α)} (nil : P [])
    (put : ∀ t, P t → ∀ e ∈ entries, P (t.put e.1 e.2)) : P (ofEntries entries) := by
  have hfold : ∀ t : Table α, P t →
      P (entries.foldl (fun t e => Table.put t e.1 e.2) t) := by
    induction entries with
    | nil => exact fun t ht => ht
    | cons d entries ih =>
        intro t ht
        refine ih (fun t ht e he => put t ht e (List.mem_cons_of_mem _ he)) _ ?_
        exact put t ht d (List.mem_cons_self ..)
  exact hfold [] nil

/-- What is written under a name is new, or stood in the table before. -/
theorem mem_put {e : String × α} (h : e ∈ t.put name a) : e = (name, a) ∨ e ∈ t := by
  induction t with
  | nil => exact Or.inl (List.mem_singleton.1 h)
  | cons d t ih =>
      unfold put at h
      split at h
      next hkey =>
        rcases List.mem_cons.1 h with rfl | h
        · exact Or.inl (by rw [hkey])
        · exact Or.inr (List.mem_cons_of_mem _ h)
      next =>
        rcases List.mem_cons.1 h with rfl | h
        · exact Or.inr (List.mem_cons_self ..)
        · exact (ih h).imp_right (List.mem_cons_of_mem _)

/-- A table holds nothing but its entries. -/
theorem mem_of_mem_ofEntries {e : String × α} {entries : List (String × α)}
    (h : e ∈ ofEntries entries) : e ∈ entries := by
  refine ofEntries_induct (P := fun t => ∀ e ∈ t, e ∈ entries)
    (fun e he => absurd he List.not_mem_nil) (fun t ht d hd e he => ?_) e h
  rcases mem_put he with rfl | he
  · exact hd
  · exact ht e he

theorem mem_names_put {x : String} : x ∈ (t.put name a).names ↔ x = name ∨ x ∈ t.names := by
  rw [names_put]
  split
  next h =>
    constructor
    · exact Or.inr
    · intro hx
      rcases hx with rfl | hx
      · exact h
      · exact hx
  next => rw [List.mem_append, List.mem_singleton, or_comm]

/-- A name stands in a table if one of the entries has it. -/
theorem mem_names_ofEntries {x : String} {entries : List (String × α)} :
    x ∈ (ofEntries entries).names ↔ x ∈ entries.map (·.1) := by
  have hfold : ∀ t : Table α, x ∈ names (entries.foldl (fun t e => put t e.1 e.2) t) ↔
      x ∈ t.names ∨ x ∈ entries.map (·.1) := by
    induction entries with
    | nil => simp
    | cons e entries ih =>
        intro t
        rw [List.foldl_cons, ih, mem_names_put, List.map_cons, List.mem_cons, or_assoc,
          or_left_comm]
  exact (hfold []).trans (or_iff_right List.not_mem_nil)

/-- A write makes no name stand twice. -/
theorem nodup_names_put (hnd : t.names.Nodup) (name : String) (a : α) :
    (t.put name a).names.Nodup := by
  rw [names_put]
  split
  next => exact hnd
  next hnew =>
    rw [← List.concat_eq_append]
    exact hnd.concat hnew

/-- What a name has already can be written under it. -/
theorem put_of_at? (h : t.at? name = some a) : t.put name a = t := by
  induction t with
  | nil => cases h
  | cons e t ih =>
      obtain ⟨key, b⟩ := e
      unfold at? at h
      unfold put
      split at h
      next hkey =>
        injection h with h
        rw [if_pos hkey, h]
      next hkey => rw [if_neg hkey, ih h]

/-- No name stands twice in the table of a list. -/
theorem nodup_names_ofEntries (entries : List (String × α)) :
    (ofEntries entries).names.Nodup :=
  ofEntries_induct (P := fun t => t.names.Nodup) List.nodup_nil
    fun _ ht e _ => nodup_names_put ht e.1 e.2

/-- Entries make a table that is not empty. -/
theorem ofEntries_ne_nil {entries : List (String × α)} (h : entries ≠ []) :
    ofEntries entries ≠ [] := by
  obtain ⟨e, he⟩ := List.exists_mem_of_ne_nil _ h
  intro hnil
  have hname := mem_names_ofEntries.2 (List.mem_map_of_mem (f := Prod.fst) he)
  rw [hnil] at hname
  cases hname

/-- A list of entries without repeated names is its own table. -/
theorem ofEntries_of_nodup {entries : List (String × α)}
    (h : (entries.map (·.1)).Nodup) : ofEntries entries = entries := by
  unfold ofEntries
  rw [foldl_put_of_nodup entries [] (by simpa using h)]
  rfl

-- ======================================================= tables in step

variable {u : Table β} {R : α → β → Prop}

/-- Where the entries of two tables go together, so does what is read under a
name. -/
theorem exists_partner (h : List.Forall₂ (fun d e => d.1 = e.1 ∧ R d.2 e.2) t u)
    (ha : t.at? name = some a) : ∃ b, u.at? name = some b ∧ R a b := by
  induction h with
  | nil => cases ha
  | @cons d e _ _ hde _ ih =>
      obtain ⟨key, a'⟩ := d
      obtain ⟨_, b⟩ := e
      obtain ⟨rfl, hab⟩ := hde
      unfold at? at ha ⊢
      split at ha
      next hkey =>
        injection ha with ha
        rw [if_pos hkey]
        exact ⟨b, rfl, ha ▸ hab⟩
      next hkey =>
        rw [if_neg hkey]
        exact ih ha

-- ======================================================= parts of tables

/-- A name is read alike where the entries of other names are left out. -/
theorem at?_filter {keep : String → Bool} (hkeep : keep name = true) (t : Table α) :
    at? (t.filter fun e => keep e.1) name = t.at? name := by
  induction t with
  | nil => rfl
  | cons e t ih =>
      obtain ⟨key, b⟩ := e
      rw [List.filter_cons]
      by_cases hkey : key = name
      · subst hkey
        rw [if_pos hkeep, at?, at?, if_pos rfl, if_pos rfl]
      · rw [at?, if_neg hkey, ← ih]
        split
        next => rw [at?, if_neg hkey]
        next => rfl

/-- Every entry of a table stands in another, and under its names both are read
alike. -/
structure Part (part whole : Table α) : Prop where
  mem : ∀ e ∈ part, e ∈ whole
  at?_eq : ∀ name ∈ part.names, part.at? name = whole.at? name

namespace Part

variable {part whole : Table α}

theorem at?_of (h : Part part whole) (ha : part.at? name = some a) :
    whole.at? name = some a := by
  rw [← h.at?_eq name (mem_names_of_at? ha), ha]

theorem mem_names (h : Part part whole) (hname : name ∈ part.names) :
    name ∈ whole.names := by
  obtain ⟨a, ha⟩ := exists_at? hname
  exact mem_names_of_at? (h.at?_of ha)

/-- The entries of some names are a part. -/
theorem filter (keep : String → Bool) (t : Table α) :
    Part (t.filter fun e => keep e.1) t where
  mem := fun _ he => (List.mem_filter.1 he).1
  at?_eq := by
    intro name hname
    obtain ⟨e, he, rfl⟩ := List.mem_map.1 hname
    exact at?_filter (List.mem_filter.1 he).2 t

/-- The entries in another order are a part, if no name stands twice. -/
theorem of_perm (h : part.Perm whole) (hnd : whole.names.Nodup) : Part part whole where
  mem := fun _ he => h.mem_iff.1 he
  at?_eq := by
    intro name hname
    have hnd' : part.names.Nodup := (h.map Prod.fst).nodup_iff.2 hnd
    obtain ⟨a, ha⟩ := exists_at? hname
    rw [ha, at?_of_mem hnd (h.mem_iff.1 (mem_of_at? ha))]

/-- What goes together with a table, entry by entry, has a part that goes
together with a part of the table. -/
theorem exists_forall₂ (h : Part part whole)
    (hall : List.Forall₂ (fun d e => d.1 = e.1 ∧ R d.2 e.2) whole u)
    (huniq : ∀ a b b', R a b → R a b' → b = b') :
    ∃ u', List.Forall₂ (fun d e => d.1 = e.1 ∧ R d.2 e.2) part u' ∧ Part u' u := by
  have heach : ∀ d ∈ part, ∃ e, (d.1 = e.1 ∧ R d.2 e.2) ∧ e ∈ u := by
    intro d hd
    obtain ⟨e, he, hde⟩ := Pairs.of_mem_left hall (h.mem d hd)
    exact ⟨e, hde, he⟩
  obtain ⟨u', hu'⟩ := Pairs.exists_of_forall heach
  have hstep : List.Forall₂ (fun d e => d.1 = e.1 ∧ R d.2 e.2) part u' :=
    hu'.imp fun _ _ hde => hde.1
  refine ⟨u', hstep, fun e he => ?_, fun name hname => ?_⟩
  · obtain ⟨d, -, -, hmem⟩ := Pairs.of_mem_right hu' he
    exact hmem
  · have hnames : part.names = names u' := Pairs.map_eq hstep fun _ _ hde => hde.1
    obtain ⟨a, ha⟩ := exists_at? (hnames ▸ hname)
    obtain ⟨b, hb, hab⟩ := exists_partner hstep ha
    obtain ⟨b', hb', hab'⟩ := exists_partner hall (h.at?_of ha)
    rw [hb, hb', huniq a b b' hab hab']

end Part

end Verdict.Table
