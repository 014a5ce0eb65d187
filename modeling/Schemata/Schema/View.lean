import Schemata.Schema.Scope
import Schemata.Traversal

/-!
# Schemas as nodes of a traversal

Access to the children of schemas, and the view through which paths are followed. A lazy schema is
asked for its target only when a traversal steps into it; a pipe is followed on its output side.
-/

namespace Schemata

namespace Schema

/-- A read of a child that the class of a schema does not have. -/
def noSuchChild {α : Type} (accessor : Accessor) (s : Schema) : Except Failure α :=
  .error (.notASchema (.accessed accessor) s.schemaClass.name)

def shapeOf : Schema → Except Failure (List (String × Schema))
  | object _ shape => .ok shape
  | s => noSuchChild .shape s

def elementOf : Schema → Except Failure Schema
  | array _ element => .ok element
  | s => noSuchChild .element s

def valueOf : Schema → Except Failure Schema
  | record _ _ value => .ok value
  | s => noSuchChild .value s

def itemsOf : Schema → Except Failure (List Schema)
  | tuple _ items => .ok items
  | s => noSuchChild .items s

def optionsOf : Schema → Except Failure (List Schema)
  | union _ options => .ok options
  | s => noSuchChild .options s

/-- One level into a transparent schema. -/
def innerOf (scope : Scope) : Schema → Except Failure Schema
  | wrapper _ _ inner => .ok inner
  | lazy id => scope.target id
  | pipe _ _ output => .ok output
  | s => .error (.notASchema .wrapper s.schemaClass.name)

end Schema

/-- Schemas as nodes, with the targets of `scope`. -/
def Scope.view (scope : Scope) : View Schema where
  kind := Schema.kind
  inner := Schema.innerOf scope
  property? s name := do return (← s.shapeOf).lookup name
  element := Schema.elementOf
  value := Schema.valueOf
  items := Schema.itemsOf
  options := Schema.optionsOf

@[simp] theorem Scope.view_kind (scope : Scope) (s : Schema) : scope.view.kind s = s.kind := rfl

/-- The line that is logged when a path has led to a schema. -/
def Schema.arrivalNotice (path : String) (s : Schema) : String :=
  "resolved path " ++ Text.quoted path ++ " to " ++ s.kind.name ++ " schema"

/-- The schema that is responsible for the values at a path, with the lazy schemas that were asked
for their targets on the way. The empty path gives the schema itself. -/
def Scope.resolve (scope : Scope) (limit : Nat) (root : Schema) (path : PathArgument) :
    Trail NodeId Schema :=
  match path.coerce with
  | .error failure => .fail failure
  | .ok (text, pieces) =>
    (scope.view.walkPieces limit text root pieces).filterMap Schema.lazyId?

end Schemata
