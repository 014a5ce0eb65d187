import Schemata.Kind

/-!
# Schema classes

The classes of schemas. A class fixes the kind of its schemas and how many parameters its static
types take.
-/

namespace Schemata

inductive SchemaClass where
  /-- The base of all schemas, which validates nothing itself. -/
  | base
  | string
  | number
  | integer
  | boolean
  | null
  | any
  | literal
  | enum
  | transform
  | object
  | array
  | record
  | tuple
  | union
  | optional
  | nullable
  | default
  | readonly
  | lazy
  | pipe
  deriving Repr, DecidableEq, Inhabited

namespace SchemaClass

def all : List SchemaClass :=
  [base, string, number, integer, boolean, null, any, literal, enum, transform, object, array,
    record, tuple, union, optional, nullable, default, readonly, lazy, pipe]

def name : SchemaClass → String
  | base => "Schema"
  | string => "StringSchema"
  | number => "NumberSchema"
  | integer => "IntegerSchema"
  | boolean => "BooleanSchema"
  | null => "NullSchema"
  | any => "AnySchema"
  | literal => "LiteralSchema"
  | enum => "EnumSchema"
  | transform => "TransformSchema"
  | object => "ObjectSchema"
  | array => "ArraySchema"
  | record => "RecordSchema"
  | tuple => "TupleSchema"
  | union => "UnionSchema"
  | optional => "OptionalSchema"
  | nullable => "NullableSchema"
  | default => "DefaultSchema"
  | readonly => "ReadonlySchema"
  | lazy => "LazySchema"
  | pipe => "PipeSchema"

/-- Name with its module, as types are shown. -/
def path (c : SchemaClass) : String :=
  "schemapath.schema.nodes." ++ c.name

def kind : SchemaClass → Kind
  | object => .object
  | array => .array
  | record => .record
  | tuple => .tuple
  | union => .union
  | optional => .optional
  | nullable => .nullable
  | default => .default
  | readonly => .readonly
  | lazy => .lazy
  | pipe => .pipe
  | base | string | number | integer | boolean | null | any | literal | enum | transform => .leaf

/-- Number of type parameters. -/
inductive Arity where
  | exactly (n : Nat)
  | any
  deriving Repr, DecidableEq

def arity : SchemaClass → Arity
  | base | string | number | integer | boolean | null | any => .exactly 0
  | literal | enum | transform | object | array => .exactly 1
  | optional | nullable | default | readonly | lazy => .exactly 1
  | record | pipe => .exactly 2
  | tuple | union => .any

end SchemaClass

end Schemata
