/-
A rule with a fixed answer, which leaves that answer on the list of
calls.
-/
import Verdict.Rule.Script

namespace Verdict.Sample

/-- What the rule does: it answers with the value bound to its field. -/
def constantBody : Body := fun _ bindings ctx =>
  match Table.at? bindings "value", (ctx.input? Script.callsName).bind Input.list? with
  | some b, some _ => (.ok (.bound b), ctx.append Script.callsName b.toValue)
  | _, _ => (.error .noPart, ctx)

/-- The rule with a fixed answer. -/
def constant : Rule :=
  { name := "Constant"
    schema := ⟨[⟨"value", .boolean, "Value", none⟩], by decide⟩
    params := [⟨Script.callsName, ⟨"list", ""⟩, .keyword⟩]
    body := constantBody }

end Verdict.Sample
