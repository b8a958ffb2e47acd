/-
Sources: where a policy document comes from. A document is given decoded,
or as a text, which is JSON if it begins with a brace and YAML otherwise.
-/
import Verdict.Error.Defect
import Verdict.Json.Reader
import Verdict.Log.Entry
import Verdict.Yaml.Reader

namespace Verdict

/-- What no reader of documents expects: the failure of a tagged value, a
defect that cannot be put into words, a field that the records of a rule call,
or a path that can name no file. -/
inductive SourceFault where
  | tag (f : TagFault)
  | unwritable
  | uncallable (field found : String)
  | badPath
  deriving Repr, DecidableEq

/-- What a fault says. -/
def SourceFault.message : SourceFault → String
  | .tag f => f.message
  | .unwritable => "A defect shows a number of too many digits"
  | .uncallable field found => (Defect.uncallable field found).message
  | .badPath => "A path holds a null character"

/-- Why there is no document, or why a document is not taken: a defect, or a
fault. -/
inductive SourceError where
  | defect (d : Defect)
  | fault (f : SourceFault)
  deriving Repr

/-- A defect as an error: a fault if it is none of the document, or if it cannot be
put into words. -/
def SourceError.ofDefect : Defect → SourceError
  | .uncallable field found => .fault (.uncallable field found)
  | d => if d.isWritable then .defect d else .fault .unwritable

/-- What a builder is given: a document, or why there is none. -/
abbrev Source := Journal (Except SourceError Value)

namespace Source

/-- A decoded document. -/
def document (v : Value) : Source := pure (.ok v)

-- ============================================================== texts

/-- Whether a text is read as JSON. -/
def isJson (text : String) : Bool :=
  (Text.dropBlanks text.toList).head? = some '\x7b'

/-- The cause of a text that is not JSON. -/
def jsonCause : Json.Failure → Undecodable
  | .malformed reason place => .json reason place
  | .longNumber => .badValue
  | .tooDeep => .tooDeep

/-- The cause of a text that is not YAML. -/
def yamlCause : Yaml.Failure → SourceError
  | .malformed => .defect (.undecodable .yaml)
  | .badValue => .defect (.undecodable .badValue)
  | .tooDeep => .defect (.undecodable .tooDeep)
  | .tag fault => .fault (.tag fault)

/-- The value of a text. -/
def readValue (text : String) : Except SourceError Value :=
  if isJson text then
    (Json.read text).mapError fun f => .defect (.undecodable (jsonCause f))
  else (Yaml.read text).mapError yamlCause

/-- The document of a text, which has to be a mapping. -/
def readText (text : String) : Except SourceError Value := do
  let v ← readValue text
  if v.isMap then pure v else throw (.defect (.notADocument v.kindName))

/-- A document given as a text. -/
def text (text : String) : Source := pure (readText text)

end Source

end Verdict
