import Verdict.Calendar
import Verdict.Decimal.Binary64
import Verdict.Decimal.Places
import Verdict.Decimal.Shortest
import Verdict.Error.Declaration
import Verdict.Error.Defect
import Verdict.Error.Evaluation
import Verdict.Expr.Basic
import Verdict.Expr.Bind
import Verdict.Expr.Evaluate
import Verdict.Expr.Export
import Verdict.Expr.Parse
import Verdict.Expr.Walk
import Verdict.Field.Detail
import Verdict.Field.Kind
import Verdict.Field.Schema
import Verdict.Field.Spec
import Verdict.File.Path
import Verdict.File.Tree
import Verdict.Json.Failure
import Verdict.Json.Reader
import Verdict.Json.Writer
import Verdict.Log.Entry
import Verdict.Log.Format
import Verdict.Log.Message
import Verdict.Main
import Verdict.Policy.Build
import Verdict.Policy.Check
import Verdict.Policy.Folder
import Verdict.Policy.Resolver
import Verdict.Policy.Source
import Verdict.Proofs.Expr.Binding
import Verdict.Proofs.Expr.Calls
import Verdict.Proofs.Expr.Expansion
import Verdict.Proofs.Expr.Grammar
import Verdict.Proofs.Expr.Meaning
import Verdict.Proofs.Expr.Misread
import Verdict.Proofs.Expr.Nodes
import Verdict.Proofs.Expr.Parse
import Verdict.Proofs.Expr.Printed
import Verdict.Proofs.Expr.Traversal
import Verdict.Proofs.Json.Exported
import Verdict.Proofs.Json.RoundTrip
import Verdict.Proofs.Json.Written
import Verdict.Proofs.Outcome
import Verdict.Proofs.Pairs
import Verdict.Proofs.Policy.Arguments
import Verdict.Proofs.Policy.Arrangement
import Verdict.Proofs.Policy.Check
import Verdict.Proofs.Policy.Evaluation
import Verdict.Proofs.Policy.Export
import Verdict.Proofs.Policy.Limit
import Verdict.Proofs.Policy.Modes
import Verdict.Proofs.Policy.Node
import Verdict.Proofs.Policy.Part
import Verdict.Proofs.Policy.Rejection
import Verdict.Proofs.Policy.Resolver
import Verdict.Proofs.Policy.Shown
import Verdict.Proofs.Policy.WellFormed
import Verdict.Proofs.Reference.Depth
import Verdict.Proofs.Reference.Search
import Verdict.Proofs.Rule.Fields
import Verdict.Proofs.Rule.Signature
import Verdict.Proofs.Rule.Stored
import Verdict.Proofs.Ruleset.History
import Verdict.Proofs.Ruleset.Introspection
import Verdict.Proofs.Ruleset.Seal
import Verdict.Proofs.Service.Agreement
import Verdict.Proofs.Table
import Verdict.Proofs.Value.Document
import Verdict.Proofs.Value.Short
import Verdict.Record.Integer
import Verdict.Record.Part
import Verdict.Reference.Depth
import Verdict.Reference.Graph
import Verdict.Rule.Basic
import Verdict.Rule.Binding
import Verdict.Rule.Draft
import Verdict.Rule.Input
import Verdict.Rule.Script
import Verdict.Rule.Signature
import Verdict.Ruleset.Basic
import Verdict.Ruleset.Registry
import Verdict.Sample.Constant
import Verdict.Sample.Settlement
import Verdict.Sample.Transaction
import Verdict.Service
import Verdict.Settings.Assignments
import Verdict.Settings.Basic
import Verdict.Settings.Environment
import Verdict.Showcase
import Verdict.Table
import Verdict.Text.Base64
import Verdict.Text.Class
import Verdict.Text.Half
import Verdict.Text.Lines
import Verdict.Text.Order
import Verdict.Text.Printable
import Verdict.Text.Quoted
import Verdict.Text.Utf8
import Verdict.Value.Basic
import Verdict.Value.Literal
import Verdict.Value.Same
import Verdict.Yaml.Cursor
import Verdict.Yaml.Failure
import Verdict.Yaml.Kind
import Verdict.Yaml.Node
import Verdict.Yaml.Node.Reader
import Verdict.Yaml.Node.Value
import Verdict.Yaml.Number
import Verdict.Yaml.Reader
import Verdict.Yaml.Scalar
import Verdict.Yaml.Time
import Verdict.Yaml.Token
import Verdict.Yaml.Token.Reader
import Verdict.Proofs.Reference.Circle
import Verdict.Proofs.Policy.Nesting
import Verdict.Proofs.Yaml.Cursor
import Verdict.Proofs.Yaml.Token
import Verdict.Proofs.Yaml.Node
import Verdict.Proofs.Yaml.Kind
import Verdict.Proofs.Yaml.Value
import Verdict.Proofs.Policy.Source
import Verdict.Proofs.Json.Reading
import Verdict.Proofs.Rule.Document
import Verdict.Proofs.Rule.Supplied
import Verdict.Proofs.Policy.Leaf
import Verdict.Proofs.Expr.Levels
