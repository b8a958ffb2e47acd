/-
Policies in files: the documents of a folder, and the document of a file.
-/
import Verdict.File.Tree
import Verdict.Policy.Source
import Verdict.Text.Order

namespace Verdict.Policy.Folder

/-- The part of the program that logs the reading of files. -/
def logger : String := "rulecomposer.policy.loader"

/-- The endings of the names of policy documents. -/
def suffixes : List String := [".json", ".yaml", ".yml"]

/-- The policy documents in a folder by name, in the order of their
names. -/
def documents (t : File.Tree) (path : String) : Journal (List String) := do
  if t.isFolder path then
    let found := (t.namesIn path).filter fun name =>
      suffixes.contains (File.Path.suffix name)
    pure (Text.sorted found)
  else
    Journal.note Log.warning logger s!"Policies path not found: {path}"
    pure []

/-- The text of a file, or why there is none. -/
def readText (t : File.Tree) (path : String) : Except SourceError String :=
  if path.contains '\x00' then .error (.fault .badPath)
  else match t.read path with
    | .error refusal => .error (.defect (.unreadable path (refusal.message path)))
    | .ok bytes =>
        match Text.Utf8.decode bytes with
        | .error failure => .error (.defect (.unreadable path failure.message))
        | .ok chars => .ok (String.ofList (Text.unifyBreaks chars))

/-- The document of a file. -/
def source (t : File.Tree) (path : String) : Source := do
  match readText t path with
  | .error e => pure (.error e)
  | .ok text =>
      Journal.note Log.debug logger s!"Loaded policy document {path}"
      Source.text text

end Verdict.Policy.Folder
