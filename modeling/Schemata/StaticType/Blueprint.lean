import Schemata.Schema.Blueprint
import Schemata.StaticType.Basic

/-!
# Blueprints of types

A blueprint describes how a type is written down: a class with parameters, a name, or the type that
is derived from a schema.
-/

namespace Schemata

inductive TypeBlueprint where
  | constant (t : StaticType)
  | bare (c : SchemaClass)
  | applied (c : SchemaClass) (args : List TypeBlueprint)
  /-- A class whose parameter is the type of some values. -/
  | members (c : SchemaClass) (values : List Value)
  /-- The type declared under a name. -/
  | declared (name : String)
  | forward (name : String)
  /-- The type derived from a schema. -/
  | derived (schema : Blueprint)
  deriving Inhabited

/-- What is declared under a name. -/
inductive Declaration where
  | shape (fields : List (String × TypeBlueprint))
  | type (t : TypeBlueprint)

end Schemata
