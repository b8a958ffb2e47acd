/-
The showcase: the sample ruleset and a policy over it at work. A showing
is what has been put out so far, printed lines and log entries in their
order, and the outcome, which may be a failure.
-/
import Verdict.Log.Format
import Verdict.Policy.Build
import Verdict.Policy.Folder
import Verdict.Sample.Transaction

namespace Verdict.Showcase

/-- Something put out. -/
inductive Item where
  | printed (line : String)
  | logged (e : Log.Entry)
  deriving Repr

/-- Why a showing ends early. -/
inductive Failure where
  | declaration (e : DeclarationError)
  | source (e : SourceError)
  | evaluation (e : EvaluationError)

/-- What a failure says. -/
def Failure.message : Failure → String
  | declaration e => e.message
  | source (.defect d) => d.message
  | source (.fault f) => f.message
  | evaluation e => e.message?.getD "An evaluation has no outcome"

/-- A part of a showing. -/
abbrev Show := ExceptT Failure (StateM (List Item))

-- ============================================================= putting out

/-- Print a text, line by line. -/
def print (text : String) : Show Unit :=
  modify (· ++ [.printed text])

/-- Take what was logged into the showing, and go on with the outcome. -/
def follow (j : Journal α) : Show α := do
  modify (· ++ j.entries.map .logged)
  pure j.value

/-- Go on with the outcome unless it is a failure. -/
def settle (failure : ε → Failure) : Except ε α → Show α
  | .ok a => pure a
  | .error e => throw (failure e)

/-- A rule across the page. -/
def ruler : String := String.ofList (List.replicate 60 '=')

-- ================================================================ inputs

/-- The sample merchant. -/
def merchant : Input :=
  .record "Merchant" [("token", .str "abc123"), ("country", .str "IE"),
    ("capabilities", .list [])]

/-- The sample payment. -/
def payment : Input :=
  .record "Payment" [("currency", .str "gbp"), ("amount", .int 20000),
    ("merchant", .str "abc123"), ("buyer_country", .str "IE")]

/-- The sample inputs. -/
def context : Context := [("merchant", merchant), ("payment", payment)]

/-- A policy whose expressions refer to each other in a circle. -/
def cyclic : Value :=
  .object [("ruleset", .str Sample.Transaction.rulesetName),
    ("rules", .texts ["PaymentAmount"]),
    ("expressions", .object [("A", .object [("expr", .str "B")]),
      ("B", .object [("expr", .str "A")])])]

-- ================================================================= steps

/-- Evaluate an expression with the sample inputs. -/
def evaluate (r : Resolver) (name : String) : Show Bool := do
  let (outcome, _) ← follow (r.evaluate name context)
  settle .evaluation outcome

/-- Show what each expression evaluates to. -/
def showOutcomes (r : Resolver) : List String → Show Unit
  | [] => pure ()
  | name :: rest => do
      let b ← evaluate r name
      print s!"   {name}: {Value.boolLiteral b}"
      showOutcomes r rest

/-- Show that a policy with a circle is rejected, and that it denies where
it is built all the same. -/
def showCyclic (b : Builder) : Show Unit := do
  print "\n🔴 Cyclic policy:"
  match ← follow (b.build (.document cyclic)) with
  | .ok _ => pure ()
  | .error (.defect d) => print s!"   {d.name}: {d.message}"
  | .error (.fault f) => throw (.source (.fault f))
  match ← follow (b.buildPermissive (.document cyclic)) with
  | .error f => throw (.source (.fault f))
  | .ok inert =>
      print s!"   Permissive build is inert: {Value.boolLiteral inert.isInert}"
      let denied ← evaluate inert "A"
      print s!"   A -> {Value.boolLiteral denied}"

/-- Show the policy of a file at work. -/
def showPolicy (b : Builder) (files : File.Tree) (folder name : String) : Show Unit := do
  let source := Policy.Folder.source files (File.Path.join folder name)
  let r ← settle .source (← follow (b.build source))
  print s!"   ✅ {name}: {quotedList r.names}"
  print "\n📊 Evaluation:"
  showOutcomes r r.names
  showCyclic b
  print ("\n" ++ ruler)
  print "✅ Demo complete!"
  print ruler

/-- The whole showing. -/
def run (s : Settings) (files : File.Tree) : Show Unit := do
  print ruler
  print "rulecomposer Demo - Transaction Eligibility"
  print ruler
  print "\n📚 Registering ruleset..."
  let (defined, _) ← follow (Sample.Transaction.define .empty)
  let ruleset ← settle .declaration defined
  let ruleNames := ", ".intercalate ruleset.ruleNames
  print s!"   ✅ {ruleset.name}: {ruleNames}"
  print "\n🧾 Ruleset definition:"
  print ruleset.toJson
  print s!"\n📋 Building policies from {s.policies}..."
  let b ← settle .declaration (Builder.create ruleset s.depth)
  match ← follow (Policy.Folder.documents files s.policies) with
  | [] => print "   ❌ No policy documents found"
  | name :: _ => showPolicy b files s.policies name

-- =============================================================== writing

/-- The text of an item, if the settings let it through. -/
def Item.text? (s : Settings) (time : String) : Item → Option String
  | printed text => some text
  | logged e =>
      if Log.passes s e.level then
        some ((Log.Format.ofSettings s).write ⟨e, time, none⟩)
      else none

/-- What a showing puts out, log entries with the given time, and why it
ended early if it did. -/
def transcript (s : Settings) (files : File.Tree) (time : String) :
    String × Option Failure :=
  let (outcome, items) := (run s files).run []
  let text := String.join ((items.filterMap (Item.text? s time)).map (· ++ "\n"))
  match outcome with
  | .ok () => (text, none)
  | .error f => (text, some f)

end Verdict.Showcase
