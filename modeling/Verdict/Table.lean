/-
Tables: names with what stands under them, in the order in which the
names first appeared. The expressions of a policy, the rules of a
ruleset and the rulesets of a registry are all read by name and shown in
that order, so the order is part of the value.
-/

namespace Verdict

/-- Entries by name, oldest name first. -/
abbrev Table (α : Type u) := List (String × α)

namespace Table

variable {α : Type u}

-- ==================================================== reading

/-- What stands under a name. -/
def at? : Table α → String → Option α
  | [], _ => none
  | (key, a) :: rest, name => if key = name then some a else at? rest name

/-- The names, oldest first. -/
def names (t : Table α) : List String := t.map (·.1)

/-- Whether something stands under the name. -/
def has (t : Table α) (name : String) : Bool := t.names.contains name

-- ==================================================== writing

/-- Put an entry under a name: a known name keeps its place and takes
the new entry, a new name goes last. -/
def put : Table α → String → α → Table α
  | [], name, a => [(name, a)]
  | (key, b) :: rest, name, a =>
      if key = name then (key, a) :: rest else (key, b) :: put rest name a

/-- The table of a list of entries, in which a later entry of a name
takes the place of an earlier one. -/
def ofEntries (entries : List (String × α)) : Table α :=
  entries.foldl (fun t e => put t e.1 e.2) []

-- ==================================================== small laws

@[simp] theorem at?_nil (name : String) : at? ([] : Table α) name = none := rfl

@[simp] theorem names_nil : names ([] : Table α) = [] := rfl

@[simp] theorem names_cons (key : String) (a : α) (t : Table α) :
    names ((key, a) :: t) = key :: names t := rfl

/-- A name has no entry exactly when it is not among the names. -/
theorem at?_eq_none_iff {t : Table α} {name : String} :
    at? t name = none ↔ name ∉ names t := by
  induction t with
  | nil => simp
  | cons e t ih =>
      obtain ⟨key, a⟩ := e
      by_cases h : key = name
      · simp [at?, h]
      · have h' : ¬ name = key := fun e => h e.symm
        simp [at?, h, h', ih]

/-- A write is read back, and leaves every other name alone. -/
theorem at?_put (t : Table α) (name : String) (a : α) (other : String) :
    at? (put t name a) other = if name = other then some a else at? t other := by
  induction t with
  | nil => by_cases h : name = other <;> simp [put, at?, h]
  | cons e t ih =>
      obtain ⟨key, b⟩ := e
      by_cases hk : key = name
      · subst hk
        by_cases h : key = other <;> simp [put, at?, h]
      · by_cases ho : key = other
        · subst ho
          have hn : ¬ name = key := fun e => hk e.symm
          simp [put, at?, hk, hn]
        · simp [put, at?, hk, ho, ih]

/-- A write keeps the names in place and adds a new one at the end. -/
theorem names_put (t : Table α) (name : String) (a : α) :
    names (put t name a) = if name ∈ names t then names t else names t ++ [name] := by
  induction t with
  | nil => simp [put]
  | cons e t ih =>
      obtain ⟨key, b⟩ := e
      by_cases hk : key = name
      · simp [put, hk]
      · have hn : ¬ name = key := fun e => hk e.symm
        by_cases hm : name ∈ names t <;> simp [put, hk, hn, ih, hm]

end Table

end Verdict
