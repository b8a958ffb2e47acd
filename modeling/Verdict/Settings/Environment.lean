/-
Environments: where settings come from. A setting given as an argument
counts before a variable of the environment, and that before an assignment
of the file. Names are told apart without regard to case: of the arguments
of one name the first counts, of variables and assignments the last.
Settings that were read once without arguments are kept.
-/
import Verdict.Json.Reader
import Verdict.Settings.Assignments
import Verdict.Settings.Basic

namespace Verdict

/-- Why settings are not read: a value is wrong, or the text of a list is
not JSON or nested too deep. -/
inductive SettingsError where
  | details (details : List Detail)
  | unreadableList
  | tooDeep
  deriving Repr

/-- The variables that are given, the text of the file of assignments, and
the settings that are kept. -/
structure Environment where
  given : Table String := []
  file : Option String := none
  kept : Option Settings := none

namespace Environment

-- ============================================================= values

/-- A name without regard to case. -/
def folded (name : String) : String := String.ofList (name.toList.map Char.toLower)

/-- Entries by name without regard to case; the last of a name counts. -/
def foldedTable (entries : Table α) : Table α :=
  Table.ofEntries (entries.map fun e => (folded e.1, e.2))

/-- The first argument of a name without regard to case. -/
def argument? (arguments : Table α) (name : String) : Option α :=
  (arguments.find? fun a => folded a.1 = name).map (·.2)

/-- The value that a text gives a setting: that of a list is written as
JSON, and null is no value. -/
def valueOf (name text : String) : Except SettingsError (Option Value) :=
  if Settings.listNames.contains name then
    match Json.read text with
    | .ok .null => .ok none
    | .ok v => .ok (some v)
    | .error .tooDeep => .error .tooDeep
    | .error _ => .error .unreadableList
  else .ok (some (.str text))

/-- The values that texts give to the settings. -/
def valuesOf (texts : Table (Option String)) : List String → Except SettingsError (Table Value)
  | [] => .ok []
  | name :: rest =>
      match (texts.at? name).join with
      | none => valuesOf texts rest
      | some text => do
          let value ← valueOf name text
          let values ← valuesOf texts rest
          pure (match value with
            | some v => (name, v) :: values
            | none => values)

/-- The first of three values. -/
def firstOf (a b c : Option α) : Option α := (a.or b).or c

/-- The settings that arguments ask for in an environment. -/
def settings (e : Environment) (arguments : Table Value) :
    Except SettingsError Settings := do
  let texts := e.given.map fun v => (v.1, some v.2)
  let given ← valuesOf (foldedTable texts) Settings.names
  let assignments := (e.file.map (Settings.Assignments.read e.given)).getD []
  let assigned ← valuesOf (foldedTable assignments) Settings.names
  let values := Settings.names.filterMap fun name =>
    (firstOf (argument? arguments name) (given.at? name) (assigned.at? name)).map
      fun v => (name, v)
  (Settings.ofValues values).mapError .details

-- ============================================================= changes

/-- Set a variable. -/
def set (e : Environment) (name value : String) : Environment :=
  { e with given := e.given.put name value }

/-- Take a variable away. -/
def unset (e : Environment) (name : String) : Environment :=
  { e with given := e.given.filter fun v => v.1 ≠ name }

/-- Write the file of assignments. -/
def write (e : Environment) (text : String) : Environment :=
  { e with file := some (String.ofList (Text.unifyBreaks text.toList)) }

/-- Forget the settings that are kept. -/
def forget (e : Environment) : Environment := { e with kept := none }

/-- The settings of the environment: those that are kept, or the ones that
are read now and kept from then on. -/
def current (e : Environment) : Except SettingsError Settings × Environment :=
  match e.kept with
  | some s => (.ok s, e)
  | none =>
      match e.settings [] with
      | .ok s => (.ok s, { e with kept := some s })
      | .error err => (.error err, e)

end Environment

end Verdict
