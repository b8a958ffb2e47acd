/-
The service: what is answered to requests over the sealed rulesets of a
registry. It describes the rulesets and checks policies; that a policy is
rejected is an answer like any other.
-/
import Verdict.Policy.Build
import Verdict.Ruleset.Registry
import Verdict.Sample.Transaction
import Verdict.Settings.Basic

namespace Verdict

/-- A request: its method, its path as it is written, and its body. -/
structure Request where
  method : String
  path : String
  body : String := ""

/-- An answer: its status, and its body where the service words it. -/
structure Response where
  status : Nat
  body : Option Value := none
  deriving Repr

/-- A service. -/
structure Service where
  settings : Settings
  registry : Registry

namespace Service

/-- The version of the library. -/
def version : String := "0.1.0"

/-- What all paths of rulesets and policies begin with. -/
def root : List String := ["api", "v1"]

/-- The service over the sample ruleset. -/
def start (settings : Settings) : Except DeclarationError Service :=
  match (Sample.Transaction.define .empty).value with
  | (.ok _, registry) => .ok ⟨settings, registry⟩
  | (.error e, _) => .error e

-- ============================================================ answers

/-- What the service is and what it serves. -/
def about (s : Service) : Value :=
  .object [("name", .str s.settings.title), ("version", .str version),
    ("rulesets", .texts s.registry.names),
    ("validate", .str ("/" ++ "/".intercalate (root ++ ["policies", "validate"])))]

/-- Whether all rulesets are sealed. -/
def health (s : Service) : Value :=
  let rulesets := s.registry.rulesets.map (·.2)
  let unsealed := rulesets.filter fun r => !r.isSealed
  let status := if unsealed.isEmpty then "healthy" else "degraded"
  .object [("status", .str status), ("rulesets", .int rulesets.length),
    ("unsealed", .texts (unsealed.map (·.name)))]

/-- The names of the rulesets. -/
def listing (s : Service) : Value :=
  .object [("rulesets", .texts s.registry.names)]

/-- The answer that something is not found. -/
def notFound (words : String) : Response := ⟨404, some (.object [("detail", .str words)])⟩

/-- What is known of a ruleset. -/
def describe (s : Service) (name : String) : Response :=
  match s.registry.find name with
  | .ok ruleset => ⟨200, some ruleset.toValue⟩
  | .error e => notFound e.message

-- ============================================================= checks

/-- The outcome of checking a policy. -/
structure Outcome where
  valid : Bool
  ruleset : Option String := none
  expressions : List String := []
  error : Option (String × String) := none
  cycle : Option (List String) := none

/-- The outcome as it is answered. -/
def Outcome.toValue (o : Outcome) : Value :=
  .object [("valid", .bool o.valid), ("ruleset", .ofText? o.ruleset),
    ("expressions", .texts o.expressions),
    ("error_type", .ofText? (o.error.map (·.1))),
    ("error", .ofText? (o.error.map (·.2))),
    ("cycle_path", match o.cycle with
      | some path => .texts path
      | none => .null)]

/-- Why a policy that is sent has no outcome: its ruleset takes no policies yet,
or there is a fault that no mode of a builder expects. -/
inductive Breakdown where
  | declaration (e : DeclarationError)
  | fault (f : SourceFault)
  deriving Repr

/-- The part of the program that logs what is rejected. -/
def logger : String := "api.routes.policies"

/-- The outcome of a document that names no ruleset of the service. -/
def strange (s : Service) (named : Value) : Except Breakdown Outcome :=
  let words :=
    s!"Unknown ruleset {named.literal}, expected any of {quotedList s.registry.names}"
  if named.isWritable then .ok { valid := false, error := some ("UnknownRulesetError", words) }
  else .error (.fault .unwritable)

/-- The outcome of a policy with a defect. -/
def rejected (ruleset : String) (d : Defect) : Outcome :=
  let cycle := match d with
    | .cycle path => some path
    | _ => none
  { valid := false, ruleset := some ruleset, error := some (d.name, d.message), cycle }

/-- The outcome of a policy that passes. -/
def accepted (ruleset : String) (p : Policy) : Outcome :=
  { valid := true, ruleset := some ruleset, expressions := p.expressions.names }

/-- Check a document with a builder; a defect is logged. -/
def checkWith (b : Builder) (ruleset : String) (document : Value) :
    Journal (Except Breakdown Outcome) := do
  match ← b.checkStrict (.document document) with
  | .ok p => pure (.ok (accepted ruleset p))
  | .error (.fault f) => pure (.error (.fault f))
  | .error (.defect d) =>
      Journal.note Log.info logger s!"Rejected policy for {ruleset}: {d.message}"
      pure (.ok (rejected ruleset d))

/-- Check a document against the ruleset that it names, if the service has
it. -/
def check (s : Service) (document : Value) : Journal (Except Breakdown Outcome) :=
  let named := (document.get? "ruleset").getD .null
  match named.text?.filter s.registry.rulesets.has with
  | none => pure (s.strange named)
  | some ruleset =>
      match Builder.ofRegistry s.registry ruleset s.settings.depth with
      | .error e => pure (.error (.declaration e))
      | .ok b => checkWith b ruleset document

/-- The text of a body. A byte order mark before it is no part of it. -/
def bodyText (body : String) : String :=
  match body.toList with
  | '\ufeff' :: rest => String.ofList rest
  | _ => body

/-- The answer to a policy that is sent for checking. A body that is no
document is refused as such, and one that cannot be read at all as a bad
request. A document without an outcome is an error of the service. -/
def validate (s : Service) (body : String) : Response :=
  match Json.read (bodyText body) with
  | .ok (.map entries) =>
      match (s.check (.map entries)).value with
      | .ok o => ⟨200, some o.toValue⟩
      | .error _ => ⟨500, none⟩
  | .ok _ => ⟨422, none⟩
  | .error (.malformed ..) => ⟨422, none⟩
  | .error _ => ⟨400, none⟩

-- ============================================================= routes

/-- The bytes of a path, of which those after percent signs are written as
two hexadecimal digits. -/
def pathBytes : List Char → List UInt8
  | [] => []
  | c :: rest =>
      match c, rest with
      | '%', a :: b :: after =>
          match Text.digitBelow? 16 a, Text.digitBelow? 16 b with
          | some high, some low => UInt8.ofNat (high * 16 + low) :: pathBytes after
          | _, _ => (String.singleton c).toUTF8.toList ++ pathBytes (a :: b :: after)
      | c, rest => (String.singleton c).toUTF8.toList ++ pathBytes rest

/-- A path without what follows a question mark or a hash, read from its
percent signs. -/
def plainPath (path : String) : List Char :=
  let cs := path.toList.takeWhile fun c => c ≠ '?' && c ≠ '#'
  match Text.Utf8.decode (pathBytes cs) with
  | .ok chars => chars
  | .error _ => cs

/-- The parts of a path. -/
def pathParts (cs : List Char) : List String :=
  ((Text.pieces '/' cs).drop 1).map String.ofList

/-- What a path leads to. -/
inductive Route where
  | about
  | health
  | listing
  | describe (name : String)
  | validate
  deriving Repr, DecidableEq

/-- What the parts of a path lead to. -/
def Route.ofParts? (parts : List String) : Option Route :=
  match parts with
  | [""] => some .about
  | ["health"] => some .health
  | ["api", "v1", "rulesets"] => some .listing
  | ["api", "v1", "rulesets", name] => if name.isEmpty then none else some (.describe name)
  | ["api", "v1", "policies", "validate"] => some .validate
  | _ => none

/-- The parts without the empty ones at their end. -/
def withoutEnd (parts : List String) : List String :=
  (parts.reverse.dropWhile String.isEmpty).reverse

/-- What a path leads to; slashes at its end are passed over where it leads
to nothing else. -/
def Route.ofPath? (path : String) : Option Route :=
  let parts := pathParts (plainPath path)
  (ofParts? parts).or (ofParts? (withoutEnd parts))

/-- The method that a route answers to. -/
def Route.method : Route → String
  | validate => "POST"
  | _ => "GET"

/-- The answer to a request. -/
def answer (s : Service) (r : Request) : Response :=
  match Route.ofPath? r.path with
  | none => notFound "Not Found"
  | some route =>
      if route.method ≠ r.method then ⟨405, none⟩
      else
        match route with
        | .about => ⟨200, some s.about⟩
        | .health => ⟨200, some s.health⟩
        | .listing => ⟨200, some s.listing⟩
        | .describe name => s.describe name
        | .validate => s.validate r.body

end Service

end Verdict
