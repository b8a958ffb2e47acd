/-
Expressions under their names, as documents of their own and as the text of
such a document.
-/
import Verdict.Expr.Basic
import Verdict.Json.Writer

namespace Verdict.Expr

/-- The document of an expression under its name. -/
def namedDocument (name : String) (e : Expr RuleRef) : Value :=
  .object [("name", .str name), ("expression", e.toValue)]

/-- The text of that. -/
def toJson (name : String) (e : Expr RuleRef) : String := Json.pretty (e.namedDocument name)

end Verdict.Expr
