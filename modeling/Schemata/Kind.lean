/-!
# Kinds

The discriminant that every schema declares. Traversal dispatches on it and on nothing else.
-/

namespace Schemata

/-- Kind of a schema. `leaf` covers every schema without a child that a path can reach. -/
inductive Kind where
  | object
  | array
  | record
  | tuple
  | union
  | optional
  | nullable
  | default
  | readonly
  | lazy
  | pipe
  | leaf
  deriving Repr, DecidableEq, Inhabited

namespace Kind

def all : List Kind :=
  [object, array, record, tuple, union, optional, nullable, default, readonly, lazy, pipe, leaf]

def name : Kind → String
  | object => "object"
  | array => "array"
  | record => "record"
  | tuple => "tuple"
  | union => "union"
  | optional => "optional"
  | nullable => "nullable"
  | default => "default"
  | readonly => "readonly"
  | lazy => "lazy"
  | pipe => "pipe"
  | leaf => "leaf"

def ofName? (s : String) : Option Kind :=
  all.find? (·.name == s)

/-- Transparent kinds are stepped through before a path segment is applied. -/
def isTransparent : Kind → Bool
  | optional | nullable | default | readonly | lazy | pipe => true
  | object | array | record | tuple | union | leaf => false

/-- A property whose own schema has one of these kinds may be absent from an object. -/
def allowsAbsence : Kind → Bool
  | optional | default => true
  | _ => false

end Kind

end Schemata
