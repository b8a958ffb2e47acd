/-
The command line: shows the sample ruleset and the sample policy at work,
under the settings of the environment. What comes before the end of the
showing is printed even where it ends early.
-/
import Std.Time.DateTime
import Verdict.Sample.Settlement
import Verdict.Settings.Environment
import Verdict.Showcase

namespace Verdict.Main

/-- The variables that give settings, in either case. -/
def variableNames : List String :=
  Settings.names ++ Settings.names.map fun name => String.ofList (name.toList.map Char.toUpper)

/-- The environment that the program runs in. -/
def environment : BaseIO Environment := do
  let mut e : Environment := {}
  for name in variableNames do
    if let some value ← IO.getEnv name then e := e.set name value
  return e

/-- The present moment. -/
def now : IO Log.Moment := do
  let elapsed ← Std.Time.Timestamp.now
  let thousandths := elapsed.toMillisecondsSinceUnixEpoch.val
  return ⟨thousandths.fdiv 1000, (thousandths.fmod 1000).toNat⟩

/-- The folder of the policies, with the sample policy in it. -/
def files (s : Settings) : File.Tree :=
  File.Tree.add [] (File.Path.join s.policies Sample.Settlement.fileName)
    (.file Sample.Settlement.text.toUTF8.toList)

/-- What settings that are not read say. -/
def refusal : SettingsError → String
  | .details details => "\n".intercalate (details.map fun d => d.complaint.message)
  | .unreadableList => "A list among the settings is not JSON"
  | .tooDeep => "A list among the settings is nested too deep"

/-- Show, and say by the number whether the showing came to its end. -/
def run : IO UInt32 := do
  match (← environment).settings [] with
  | .error e =>
      IO.eprintln (refusal e)
      return 1
  | .ok s =>
      let (text, failure) := Showcase.transcript s (files s) (← now).shown
      IO.print text
      match failure with
      | none => return 0
      | some f =>
          IO.eprintln f.message
          return 1

end Verdict.Main

def main : IO UInt32 := Verdict.Main.run
