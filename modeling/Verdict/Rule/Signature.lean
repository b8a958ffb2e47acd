/-
Signatures: the named inputs that a rule is evaluated with. All rules of a
ruleset have the same signature, so one context fits them all.
-/
import Verdict.Rule.Input

namespace Verdict

/-- The type of an input. Two types may be shown by the same name; `detail`
tells them apart. -/
structure InputType where
  shown : String
  detail : String := ""
  deriving Repr, DecidableEq, Inhabited

/-- How a parameter takes its input: by its name, by name or place, the
inputs left by place, or the inputs left by name. -/
inductive ParamKind where
  | keyword
  | positional
  | variadic
  | keywords
  deriving Repr, DecidableEq, Inhabited

/-- A parameter of a rule. It has no default value, and if it is found by place it is
found by name as well: the parameters of rules that go without an input, or that cannot
be named, are left out. -/
structure Param where
  name : String
  type : InputType
  kind : ParamKind
  deriving Repr, DecidableEq, Inhabited

/-- The name of a parameter as signatures show it. -/
def Param.label (p : Param) : String :=
  match p.kind with
  | .keyword => p.name
  | .positional => p.name
  | .variadic => "*" ++ p.name
  | .keywords => "**" ++ p.name

/-- The parameters by label and type. -/
abbrev Signature := List (String × InputType)

/-- The signature of parameters. -/
def signatureOf (params : List Param) : Signature :=
  params.map fun p => (p.label, p.type)

/-- How messages show a signature. -/
def Signature.shown (s : Signature) : String :=
  "(" ++ ", ".intercalate (s.map fun p => p.1 ++ ": " ++ p.2.shown) ++ ")"

-- ======================================================= arguments

/-- The name under which a rule is given itself; no input may have it. -/
def selfName : String := "self"

/-- Whether a parameter takes the one input of its name. -/
def Param.isNamed (p : Param) : Bool :=
  p.kind = .keyword || p.kind = .positional

/-- Whether parameters take the inputs of a context: each that takes one
input finds it, and every other input is gathered by one. -/
def takes (params : List Param) (ctx : Context) : Bool :=
  !ctx.has selfName
    && ((params.filter Param.isNamed).all fun p => ctx.has p.name)
    && (params.any (fun p => p.kind = .keywords)
      || ctx.names.all fun name =>
        params.any fun p => p.isNamed && p.name = name)

/-- What a rule finds under the name of one of its parameters. -/
def argument? (params : List Param) (ctx : Context) (name : String) : Option Input :=
  match params.find? fun p => p.name = name with
  | none => none
  | some p =>
      match p.kind with
      | .keyword => ctx.input? name
      | .positional => ctx.input? name
      | .variadic => some (.value (.list []))
      | .keywords =>
          some (.gathered (ctx.filter fun e =>
            !(params.any fun q => q.isNamed && q.name = e.1)))

end Verdict
