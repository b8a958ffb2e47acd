/-
Inputs: what a rule is given when it is evaluated, and what it may answer
with. A context holds named inputs; a rule may change what the context
holds, and later rules see the change.
-/
import Verdict.Field.Kind

namespace Verdict

/-- An input of a rule, or its answer: a plain value, a record of named
values, a bound field value, or the inputs that were gathered under no
name of their own. -/
inductive Input where
  | value (v : Value)
  | record (kind : String) (fields : Table Value)
  | bound (b : Bound)
  | gathered (inputs : List (String × Input))
  deriving Repr, Inhabited

/-- Named inputs. -/
abbrev Context := Table Input

namespace Input

/-- Whether an answer counts as true. Records do. -/
def truthy : Input → Bool
  | value v => v.truthy
  | record _ _ => true
  | bound b => b.truthy
  | gathered inputs => !inputs.isEmpty

/-- A part of a record. -/
def part? : Input → String → Option Value
  | record _ fields, name => fields.at? name
  | _, _ => none

/-- The items of an input that is a plain list. -/
def list? : Input → Option (List Value)
  | value (.list items) => some items
  | _ => none

end Input

namespace Context

/-- The input under a name. -/
def input? (ctx : Context) (name : String) : Option Input := Table.at? ctx name

/-- Add an item at the end of the list under a name, if there is one. -/
def append (ctx : Context) (name : String) (v : Value) : Context :=
  match (ctx.input? name).bind Input.list? with
  | some items => Table.put ctx name (.value (.list (items ++ [v])))
  | none => ctx

end Context

/-- Why a rule does not answer. -/
inductive Fault where
  /-- The context lacks an input that the rule has a parameter for, or has
  one that no parameter takes. -/
  | arguments
  /-- An input has no such part. -/
  | noPart
  /-- There is no such input. -/
  | noInput
  /-- The rule refuses to answer. -/
  | refused (message : String)
  deriving Repr, DecidableEq

end Verdict
