import Schemata.StaticType.Basic
import Schemata.Value.Printer

/-!
# Text of types

The text of a type as messages show it. A class by itself is marked as one; as a parameter it is
shown by its name.
-/

namespace Schemata.StaticType

/-- Name of a shape with its module. -/
def shapePath (name : String) : String :=
  "schemapath.static." ++ name

def classText (name : String) : String :=
  "<class '" ++ name ++ "'>"

/-- Parameters between brackets. An empty list of them is marked. -/
def bracketed (parts : List String) : String :=
  "[" ++ (if parts.isEmpty then "()" else Value.commaSeparated parts) ++ "]"

mutual

/-- A type as a parameter of another one. -/
def inner : StaticType → String
  | never => "typing.Never"
  | any => "typing.Any"
  | none => "NoneType"
  | plain p => p.name
  | schema c Option.none => c.path
  | schema c (some args) => c.path ++ bracketed (innerAll args)
  | reference name => "ForwardRef(" ++ Text.quoted name ++ ")"
  | shape _ name _ _ => shapePath name
  | literal members => "typing.Literal" ++ bracketed (members.map Value.shown)
  | list item => "list[" ++ inner item ++ "]"
  | dict key value => "dict[" ++ inner key ++ ", " ++ inner value ++ "]"
  | tuple items => "tuple" ++ bracketed (innerAll items)
  | union members => "typing.Union" ++ bracketed (innerAll members)

def innerAll : List StaticType → List String
  | [] => []
  | t :: rest => inner t :: innerAll rest

end

/-- A type by itself. -/
def shown : StaticType → String
  | none => "None"
  | plain p => classText p.name
  | schema c Option.none => classText c.path
  | shape _ name _ _ => classText (shapePath name)
  | t => inner t

end Schemata.StaticType
