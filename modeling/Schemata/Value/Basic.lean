/-!
# Values

The dynamic values that schemas describe: the values that are validated, the members of literals
and the defaults. A dictionary is a list of entries in insertion order with distinct keys.
-/

namespace Schemata

inductive Value where
  | none
  | bool (b : Bool)
  | int (n : Int)
  | float (f : Float)
  | str (s : String)
  | bytes (bs : List UInt8)
  | list (items : List Value)
  | tuple (items : List Value)
  | dict (entries : List (Value × Value))
  /-- Stands for the absence of a value. -/
  | missing
  deriving Inhabited

namespace Value

/-- Name of a value's type in messages. -/
def typeName : Value → String
  | none => "NoneType"
  | bool _ => "bool"
  | int _ => "int"
  | float _ => "float"
  | str _ => "str"
  | bytes _ => "bytes"
  | list _ => "list"
  | tuple _ => "tuple"
  | dict _ => "dict"
  | missing => "_SchemaPathMissing"

/-- Name of a value's type with its module, as classes are shown. -/
def classPath : Value → String
  | missing => "schemapath.errors._SchemaPathMissing"
  | v => v.typeName

def isMissing : Value → Bool
  | missing => true
  | _ => false

def isBool : Value → Bool
  | bool _ => true
  | _ => false

def asString? : Value → Option String
  | str s => some s
  | _ => Option.none

/-- The elements of a value that is a sequence of values. Text is not one. -/
def sequence? : Value → Option (List Value)
  | list items => some items
  | tuple items => some items
  | bytes bs => some (bs.map fun b => .int b.toNat)
  | _ => Option.none

/-- The elements met when iterating over a value: text gives its characters, a dictionary its
keys. -/
def elements? : Value → Option (List Value)
  | str s => some (s.toList.map fun c => .str (String.singleton c))
  | dict entries => some (entries.map (·.1))
  | v => v.sequence?

mutual

/-- Type name of the first part of a value that cannot be a dictionary key. -/
def unhashable? : Value → Option String
  | list _ => some "list"
  | dict _ => some "dict"
  | tuple items => unhashableIn? items
  | _ => Option.none

def unhashableIn? : List Value → Option String
  | [] => Option.none
  | v :: rest =>
    match unhashable? v with
    | some name => some name
    | Option.none => unhashableIn? rest

end

end Value

end Schemata
