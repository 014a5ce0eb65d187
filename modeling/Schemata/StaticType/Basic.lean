import Schemata.Schema.Class
import Schemata.Value.Basic

/-!
# Static types

Types that stand for schemas, such as an array type whose parameter is a string type, and the types
of the values that schemas let through. Both are one data type, because a type of values can be the
parameter of a schema type.

A type is a finite tree. Recursion goes through forward references, which are names. A shape, the
type of an object, has an identity and keeps its fields as they were given.
-/

namespace Schemata

/-- Types of values without parts. -/
inductive PlainType where
  | str
  | int
  | float
  | bool
  | bytes
  | list
  | dict
  /-- Any other object that a type may be made of, such as a class of its own or a function. -/
  | other (name : String)
  deriving Repr, DecidableEq

def PlainType.name : PlainType → String
  | str => "str"
  | int => "int"
  | float => "float"
  | bool => "bool"
  | bytes => "bytes"
  | list => "list"
  | dict => "dict"
  | other name => name

/-- A namespace in which types are declared. -/
abbrev Space := Nat

/-- Identity of a shape. -/
inductive ShapeId where
  /-- Derived from a schema, as the `n`-th one. -/
  | derived (n : Nat)
  /-- Declared in a namespace, as the `n`-th one. -/
  | declared (space : Space) (n : Nat)
  /-- The shape of the values that an object with another shape lets through. -/
  | output (of : ShapeId)
  deriving Repr, DecidableEq

/-- The namespace that a shape is declared in. A shape that nobody declared has none. -/
def ShapeId.space? : ShapeId → Option Space
  | declared space _ => some space
  | _ => none

inductive StaticType where
  /-- The type without values, which also stands for a path that leads nowhere. -/
  | never
  | any
  | none
  | plain (p : PlainType)
  /-- The type of a schema class, bare or with parameters. -/
  | schema (c : SchemaClass) (args : Option (List StaticType))
  /-- A forward reference. -/
  | reference (name : String)
  /-- A shape; the `optional` ones of its fields may be absent. -/
  | shape (id : ShapeId) (name : String) (fields : List (String × StaticType))
      (optional : List String)
  | literal (members : List Value)
  | list (item : StaticType)
  | dict (key value : StaticType)
  | tuple (items : List StaticType)
  | union (members : List StaticType)
  deriving Inhabited

namespace StaticType

/-- The class whose schemas a type stands for, if it stands for schemas. -/
def schemaClass? : StaticType → Option SchemaClass
  | schema c _ => some c
  | _ => Option.none

/-- A type that stands for no schema counts as a leaf. -/
def kind (t : StaticType) : Kind :=
  match t.schemaClass? with
  | some c => c.kind
  | Option.none => .leaf

/-- The parameters of a type. -/
def args : StaticType → List StaticType
  | schema _ (some args) => args
  | list item => [item]
  | dict key value => [key, value]
  | tuple items => items
  | union members => members
  | _ => []

def isReference : StaticType → Bool
  | reference _ => true
  | _ => false

def isNever : StaticType → Bool
  | never => true
  | _ => false

end StaticType

end Schemata
