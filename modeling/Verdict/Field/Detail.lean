/-
Details: what is wrong with the parts of a record of fields, each with
the place where it is. A check of a record finds every fault, in the order
of the declared fields and then of the fields that are not declared.
-/
import Verdict.Value.Literal

namespace Verdict

/-- A step from a record to a part of it. -/
inductive Step where
  | name (s : String)
  | index (n : Nat)
  deriving Repr, DecidableEq

/-- A step as a value. -/
def Step.toValue : Step → Value
  | .name s => .str s
  | .index n => .int n

/-- What is wrong with a part. -/
inductive Complaint where
  | missing
  | undeclared
  | notText
  | notInteger
  | notBoolean
  | notList
  | notTuple
  | emptyText
  | notMember (options : List String)
  | notLiteral (options : List String)
  | unreadableInteger
  | oversizedInteger
  | fractional
  | notFinite
  | tooSmall (least : Int)
  | tooLarge (greatest : Int)
  | notRecord (record : String)
  | notPath
  deriving Repr, DecidableEq

/-- Literals joined by commas and a last "or". -/
def alternatives : List String → String
  | [] => ""
  | [a] => Text.quoted a
  | [a, b] => Text.quoted a ++ " or " ++ Text.quoted b
  | a :: rest => Text.quoted a ++ ", " ++ alternatives rest

namespace Complaint

/-- The short name of a complaint. -/
def code : Complaint → String
  | missing => "missing"
  | undeclared => "extra_forbidden"
  | notText => "string_type"
  | notInteger => "int_type"
  | notBoolean => "bool_type"
  | notList => "list_type"
  | notTuple => "tuple_type"
  | emptyText => "string_too_short"
  | notMember _ => "enum"
  | notLiteral _ => "literal_error"
  | unreadableInteger => "int_parsing"
  | oversizedInteger => "int_parsing_size"
  | fractional => "int_from_float"
  | notFinite => "finite_number"
  | tooSmall _ => "greater_than_equal"
  | tooLarge _ => "less_than_equal"
  | notRecord _ => "model_type"
  | notPath => "path_type"

/-- The words of a complaint. -/
def message : Complaint → String
  | missing => "Field required"
  | undeclared => "Extra inputs are not permitted"
  | notText => "Input should be a valid string"
  | notInteger => "Input should be a valid integer"
  | notBoolean => "Input should be a valid boolean"
  | notList => "Input should be a valid list"
  | notTuple => "Input should be a valid tuple"
  | emptyText => "String should have at least 1 character"
  | notMember options => "Input should be " ++ alternatives options
  | notLiteral options => "Input should be " ++ alternatives options
  | unreadableInteger =>
      "Input should be a valid integer, unable to parse string as an integer"
  | oversizedInteger =>
      "Unable to parse input string as an integer, exceeded maximum size"
  | fractional =>
      "Input should be a valid integer, got a number with a fractional part"
  | notFinite => "Input should be a finite number"
  | tooSmall least => s!"Input should be greater than or equal to {least}"
  | tooLarge greatest => s!"Input should be less than or equal to {greatest}"
  | notRecord record =>
      s!"Input should be a valid dictionary or instance of {record}"
  | notPath => "Input is not a valid path for <class 'pathlib.Path'>"

end Complaint

/-- A complaint about the part at a place. -/
structure Detail where
  place : List Step
  complaint : Complaint
  deriving Repr, DecidableEq

/-- A detail as place, short name and words. -/
def Detail.toValue (d : Detail) : Value :=
  .list [.list (d.place.map Step.toValue), .str d.complaint.code,
    .str d.complaint.message]

/-- The heading under which a number of details is reported. -/
def detailCount (details : List Detail) (record : String) : String :=
  let errors := if details.length = 1 then "error" else "errors"
  s!"{details.length} validation {errors} for {record}"

end Verdict
