/-
Settings: what can be set about the program as a whole. Every setting has
a name and a default, and all of them are read at once.
-/
import Verdict.Log.Entry
import Verdict.Record.Part

namespace Verdict

/-- Where the program runs. -/
inductive Stage where
  | development
  | staging
  | production
  deriving Repr, DecidableEq

namespace Stage

/-- The stages by name. -/
def named : List (String × Stage) :=
  [("development", development), ("staging", staging), ("production", production)]

/-- The name of a stage. -/
def name : Stage → String
  | development => "development"
  | staging => "staging"
  | production => "production"

end Stage

/-- The settings. -/
structure Settings where
  stage : Stage := .development
  logLevel : Log.Level := Log.info
  /-- The folder of the policies. -/
  policies : String := "config/policies"
  /-- The greatest depth of expressions in a policy. -/
  depth : Int := 64
  host : String := "0.0.0.0"
  port : Int := 8000
  version : String := "0.1.0"
  title : String := "rulecomposer API"
  origins : List String := ["*"]
  deriving Repr, DecidableEq

namespace Settings

/-- The levels that a log can be set to. -/
def logLevels : List (String × Log.Level) :=
  [("DEBUG", Log.debug), ("INFO", Log.info), ("WARNING", Log.warning),
   ("ERROR", Log.error)]

/-- The default of all settings. -/
def usual : Settings := {}

/-- Whether the program is being developed. -/
def isDevelopment (s : Settings) : Bool := s.stage = .development

/-- Whether the program is at work. -/
def isProduction (s : Settings) : Bool := s.stage = .production

/-- The settings by name. -/
def entries (s : Settings) : List (String × Value) :=
  [("rulecomposer_env", .str s.stage.name), ("log_level", .str s.logLevel.name),
   ("policies_path", .str s.policies), ("max_expression_depth", .int s.depth),
   ("api_host", .str s.host), ("api_port", .int s.port),
   ("api_version", .str s.version), ("api_title", .str s.title),
   ("cors_allow_origins", .texts s.origins)]

-- ============================================================ reading

/-- What each setting is read as. -/
def kinds : List (String × Record.PartKind) :=
  [("rulecomposer_env", .oneOf (Stage.named.map (·.1))),
   ("log_level", .oneOf (logLevels.map (·.1))), ("policies_path", .path),
   ("max_expression_depth", .bounded 1 200), ("api_host", .text),
   ("api_port", .integer), ("api_version", .text), ("api_title", .text),
   ("cors_allow_origins", .texts)]

/-- The names of the settings. -/
def names : List String := kinds.map (·.1)

/-- The names of the settings whose value is a list. -/
def listNames : List String :=
  kinds.filterMap fun k => match k.2 with
    | .texts => some k.1
    | _ => none

/-- The settings as parts of a record. -/
def parts : List Record.Part :=
  kinds.map fun k => ⟨k.1, k.2, Table.at? usual.entries k.1⟩

/-- The text read for a setting. -/
def textOf (read : Table Value) (name : String) : String :=
  ((read.at? name).bind Value.text?).getD ""

/-- The whole number read for a setting. -/
def integerOf (read : Table Value) (name : String) : Int :=
  match read.at? name with
  | some (.int n) => n
  | _ => 0

/-- The settings from what was read for each. -/
def ofParts (read : Table Value) : Settings :=
  { stage := (Stage.named.lookup (textOf read "rulecomposer_env")).getD .development
    logLevel := (logLevels.lookup (textOf read "log_level")).getD Log.info
    policies := textOf read "policies_path"
    depth := integerOf read "max_expression_depth"
    host := textOf read "api_host"
    port := integerOf read "api_port"
    version := textOf read "api_version"
    title := textOf read "api_title"
    origins := ((read.at? "cors_allow_origins").bind Value.textList?).getD [] }

/-- The settings that values by name ask for; a setting without a value has
its default. -/
def ofValues (values : Table Value) : Except (List Detail) Settings :=
  (Record.readEntries (values.map fun e => (.str e.1, e.2)) parts).map ofParts

end Settings

end Verdict
