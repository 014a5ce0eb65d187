/-!
# Path segments

A path is a sequence of segments. Each one steps from a schema to one of its children.
-/

namespace Schemata

inductive Segment where
  /-- The property `name` of an object. -/
  | property (name : String)
  /-- Any element of an array, or any value of a record. -/
  | element
  /-- The item of a tuple, or the option of a union, at a position. -/
  | index (n : Nat)
  deriving Repr, DecidableEq, Inhabited

namespace Segment

/-- Characters that end a property name in path text. -/
def endsName (c : Char) : Bool :=
  c == '.' || c == '['

/-- Whether a property name can be written in path text. -/
def isName (name : String) : Bool :=
  !name.isEmpty && !name.toList.any endsName

/-- Text of the bracket that selects an element or an index. -/
def bracket : Option Nat → String
  | none => "[]"
  | some n => "[" ++ toString n ++ "]"

/-- A segment as it would be written down in code. -/
def written (quote : String → String) : Segment → String
  | property name => "Property(name=" ++ quote name ++ ")"
  | element => "Element()"
  | index n => "Index(index=" ++ toString n ++ ")"

end Segment

end Schemata
