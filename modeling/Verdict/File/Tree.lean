/-
Trees of files: what stands under each path, and why nothing can be read
there.
-/
import Verdict.File.Path
import Verdict.Table
import Verdict.Text.Quoted

namespace Verdict.File

/-- What stands under a path. -/
inductive Entry where
  | file (bytes : List UInt8)
  | folder
  deriving Repr, DecidableEq

/-- Why nothing is read under a path. -/
inductive Refusal where
  | missing
  | inFile
  | folder
  | longName
  deriving Repr, DecidableEq

/-- The number and the words of a refusal. -/
def Refusal.words : Refusal → String
  | .missing => "[Errno 2] No such file or directory"
  | .inFile => "[Errno 20] Not a directory"
  | .folder => "[Errno 21] Is a directory"
  | .longName => "[Errno 36] File name too long"

/-- What is said of a path under which nothing is read. -/
def Refusal.message (r : Refusal) (path : String) : String :=
  r.words ++ ": " ++ Text.quoted path

/-- Files and folders by the paths to their places. -/
abbrev Tree := Table Entry

namespace Tree

/-- The greatest number of bytes of a name. -/
def longestName : Nat := 255

/-- What stands at a place; where no part leads, a folder does. -/
def entryAt (t : Tree) (path : String) (place : List String) : Option Entry :=
  if place.isEmpty then some .folder else t.at? (Path.toPlace path place)

/-- The tree with an entry under a path, and with folders at the places
along it. -/
def add (t : Tree) (path : String) (e : Entry) : Tree :=
  let places := Path.places path
  let folders := places.dropLast.filter fun p => (t.entryAt path p).isNone
  let t := folders.foldl (fun t p => Table.put t (Path.toPlace path p) .folder) t
  t.put (Path.toPlace path (places.getLast?.getD [])) e

/-- The place that parts lead to from a place of a tree: there has to be a
folder wherever one goes on from. -/
def follow (t : Tree) (path : String) (place : List String) :
    List String → Except Refusal (List String)
  | [] => .ok place
  | part :: rest =>
      match t.entryAt path place with
      | some .folder =>
          if longestName < part.utf8ByteSize then .error .longName
          else follow t path (Path.step place part) rest
      | some (.file _) => .error .inFile
      | none => .error .missing

/-- What stands under a path. -/
def find (t : Tree) (path : String) : Except Refusal Entry := do
  let place ← t.follow path [] (Path.parts path)
  match t.entryAt path place with
  | some e => pure e
  | none => throw .missing

/-- Whether a folder stands under a path. -/
def isFolder (t : Tree) (path : String) : Bool :=
  match t.find path with
  | .ok .folder => true
  | _ => false

/-- The bytes of the file under a path. -/
def read (t : Tree) (path : String) : Except Refusal (List UInt8) := do
  match ← t.find path with
  | .file bytes => pure bytes
  | .folder => throw .folder

/-- The names of what stands in a folder. -/
def namesIn (t : Tree) (path : String) : List String :=
  let place := (Path.places path).getLast?.getD []
  t.names.filterMap fun p =>
    let parts := Path.parts p
    if parts.length = place.length + 1 ∧ parts.take place.length = place then
      parts.getLast?
    else none

end Tree

end Verdict.File
