/-
Scripted rules: rules whose answer is given as data. Each appends its name
to the list `calls` of the context, where the rule has a parameter for it,
so that an evaluation shows which rules it reached.
-/
import Verdict.Rule.Draft

namespace Verdict

/-- What a scripted rule answers. -/
inductive Script where
  /-- A fixed value. -/
  | value (v : Value)
  /-- What is read of a field. -/
  | field (name : String)
  /-- An input. -/
  | input (name : String)
  /-- Nothing: the rule refuses to answer. -/
  | refuse (message : String)
  deriving Repr

namespace Script

/-- The list on which rules leave their names. -/
def callsName : String := "calls"

/-- Whether a rule with these parameters takes the list of calls. -/
def takesCalls (params : List Param) : Bool :=
  params.any fun p => p.isNamed && p.name = callsName

/-- What a scripted rule with the given parameters does. -/
def body (params : List Param) (script : Script) : Body :=
  fun name bindings ctx =>
    let record (ctx : Context) : Context :=
      if takesCalls params then ctx.append callsName (.str name) else ctx
    match script with
    | refuse message => (.error (.refused message), ctx)
    | value v => (.ok (.value v), record ctx)
    | field f =>
        match Schema.read bindings f with
        | .bound b => (.ok (.bound b), record ctx)
        | .kept v => (.ok (.value v), record ctx)
        | .hidden | .internal => (.error .noPart, ctx)
    | input i =>
        -- the list of calls is answered with the call on it
        match argument? params (record ctx) i with
        | some answer => (.ok answer, record ctx)
        | none => (.error .noInput, ctx)

/-- The action of a scripted rule. Parameters of unknown type take part by
their names alone. -/
def action (params : List DraftParam) (script : Script) :
    List DraftParam × Body :=
  (params, body (params.map fun p => ⟨p.name, p.type.toOption.getD default, p.kind⟩) script)

end Script

end Verdict
