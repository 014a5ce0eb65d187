import Schemata.Value.Basic

/-!
# Validation issues

What validation reports: why a value is not accepted, where it stands, and the value itself.
-/

namespace Schemata

/-- One step of the place of an issue: a key or the label of an option, or a position. -/
inductive Place where
  | key (name : String)
  | index (n : Int)
  deriving Repr, DecidableEq

/-- Why a value is refused. -/
inductive Complaint where
  | stringType
  | stringUnicode
  | integerType
  | integerParsing
  | integerSize
  | integerFraction
  | numberType
  | numberParsing
  | numberInfinite
  | booleanType
  | booleanParsing
  | noneRequired
  | listType
  | tupleType
  | dictType
  | missing
  | tooLong (limit actual : Nat)
  | unexpected (expected : List String)
  | valueFault (text : String)
  | assertionFault (text : String)
  | cyclic
  | notGreater (bound : Int)
  | extraForbidden
  | noSuchAttribute (name : String)
  deriving Repr, DecidableEq

namespace Complaint

def code : Complaint → String
  | stringType => "string_type"
  | stringUnicode => "string_unicode"
  | integerType => "int_type"
  | integerParsing => "int_parsing"
  | integerSize => "int_parsing_size"
  | integerFraction => "int_from_float"
  | numberType => "float_type"
  | numberParsing => "float_parsing"
  | numberInfinite => "finite_number"
  | booleanType => "bool_type"
  | booleanParsing => "bool_parsing"
  | noneRequired => "none_required"
  | listType => "list_type"
  | tupleType => "tuple_type"
  | dictType => "dict_type"
  | missing => "missing"
  | tooLong .. => "too_long"
  | unexpected _ => "literal_error"
  | valueFault _ => "value_error"
  | assertionFault _ => "assertion_error"
  | cyclic => "recursion_loop"
  | notGreater _ => "greater_than"
  | extraForbidden => "extra_forbidden"
  | noSuchAttribute _ => "no_such_attribute"

/-- The alternatives with commas between them and an "or" before the last one. -/
def alternatives (expected : List String) : String :=
  match expected.reverse with
  | [] => ""
  | [only] => only
  | last :: others => ", ".intercalate others.reverse ++ " or " ++ last

def message : Complaint → String
  | stringType => "Input should be a valid string"
  | stringUnicode => "Input should be a valid string, unable to parse raw data as a unicode string"
  | integerType => "Input should be a valid integer"
  | integerParsing => "Input should be a valid integer, unable to parse string as an integer"
  | integerSize => "Unable to parse input string as an integer, exceeded maximum size"
  | integerFraction => "Input should be a valid integer, got a number with a fractional part"
  | numberType => "Input should be a valid number"
  | numberParsing => "Input should be a valid number, unable to parse string as a number"
  | numberInfinite => "Input should be a finite number"
  | booleanType => "Input should be a valid boolean"
  | booleanParsing => "Input should be a valid boolean, unable to interpret input"
  | noneRequired => "Input should be None"
  | listType => "Input should be a valid list"
  | tupleType => "Input should be a valid tuple"
  | dictType => "Input should be a valid dictionary"
  | missing => "Field required"
  | tooLong limit actual =>
    "Tuple should have at most " ++ toString limit ++ (if limit == 1 then " item" else " items")
      ++ " after validation, not " ++ toString actual
  | unexpected expected => "Input should be " ++ alternatives expected
  | valueFault text => "Value error, " ++ text
  | assertionFault text => "Assertion failed, " ++ text
  | cyclic => "Recursion error - cyclic reference detected"
  | notGreater bound => "Input should be greater than " ++ toString bound
  | extraForbidden => "Extra inputs are not permitted"
  | noSuchAttribute name => "Object has no attribute '" ++ name ++ "'"

end Complaint

/-- A value that validation refuses. `place` leads from the validated value to `input`. -/
structure Issue where
  complaint : Complaint
  place : List Place
  input : Value

namespace Issue

/-- The issue with a value itself. -/
def here (complaint : Complaint) (input : Value) : Issue :=
  { complaint, place := [], input }

/-- The same issue seen from one level further out. -/
def under (step : Place) (issue : Issue) : Issue :=
  { issue with place := step :: issue.place }

end Issue

end Schemata
