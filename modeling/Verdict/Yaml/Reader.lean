/-
Reading YAML: from a text over its tokens and the nodes they describe to a
value. A text without a document is null.
-/
import Verdict.Yaml.Node.Reader
import Verdict.Yaml.Node.Value
import Verdict.Yaml.Token.Reader

namespace Verdict.Yaml

/-- The value of a text. -/
def read (text : String) : Except Failure Value := do
  match ← Graph.ofTokens (Token.ofText text.toList) with
  | (none, _) => pure .null
  | (some root, graph) => graph.valueOf root

end Verdict.Yaml
