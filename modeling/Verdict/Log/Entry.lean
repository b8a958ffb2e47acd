/-
Log entries, and journals: outcomes together with the entries written on
the way to them. Nothing in this library reads what it has logged, so the
entries are a part of the outcome and no state.
-/

namespace Verdict

namespace Log

/-- The weight of an entry; heavier entries matter more. -/
abbrev Level := Int

def debug : Level := 10

def info : Level := 20

def warning : Level := 30

def error : Level := 40

def critical : Level := 50

/-- The name of a level. -/
def Level.name (level : Level) : String :=
  if level = debug then "DEBUG"
  else if level = info then "INFO"
  else if level = warning then "WARNING"
  else if level = error then "ERROR"
  else if level = critical then "CRITICAL"
  else if level = 0 then "NOTSET"
  else s!"Level {level}"

/-- A line of a log: its weight, the part of the program that wrote it,
and what it says. -/
structure Entry where
  level : Level
  logger : String
  message : String
  deriving Repr, DecidableEq

end Log

/-- An outcome and the entries written on the way to it, oldest first. -/
structure Journal (α : Type u) where
  value : α
  entries : List Log.Entry
  deriving Repr

namespace Journal

instance : Monad Journal where
  pure a := ⟨a, []⟩
  bind m f := ⟨(f m.value).value, m.entries ++ (f m.value).entries⟩

/-- Write one entry. -/
def note (level : Log.Level) (logger message : String) : Journal Unit :=
  ⟨(), [⟨level, logger, message⟩]⟩

@[simp] theorem value_pure (a : α) : (pure a : Journal α).value = a := rfl

@[simp] theorem value_bind (m : Journal α) (f : α → Journal β) :
    (m >>= f).value = (f m.value).value := rfl

@[simp] theorem entries_pure (a : α) : (pure a : Journal α).entries = [] := rfl

@[simp] theorem entries_bind (m : Journal α) (f : α → Journal β) :
    (m >>= f).entries = m.entries ++ (f m.value).entries := rfl

@[simp] theorem value_note (level : Log.Level) (logger message : String) :
    (note level logger message).value = () := rfl

end Journal

end Verdict
