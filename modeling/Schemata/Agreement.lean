import Schemata.Schema.View
import Schemata.StaticType.Printer
import Schemata.StaticType.View

/-!
# Agreement of schemas and types

A path leads through a schema and through a type that describes the schema. The two agree on the
path if it leads nowhere in both, or to a schema and a type of the same class.
-/

namespace Schemata.Agreement

/-- Where a path has led through a schema: to a class, or nowhere. -/
abbrev Landing := Except Failure SchemaClass

/-- What is wrong with a landing and the type at the same path, if they do not agree. -/
def disagreement? (path : PathArgument) (t : StaticType) : Landing → Option String
  | .error failure =>
    if t.isNever then none
    else some ("resolve() failed for " ++ path.shown ++ " (" ++ failure.message
      ++ ") but schema_at() gave " ++ t.shown)
  | .ok c =>
    if t.isNever then
      some ("schema_at() gave Never for " ++ path.shown ++ " but resolve() found " ++ c.name)
    else if t.schemaClass? = some c then none
    else some ("path " ++ path.shown ++ ": schema_at() gave " ++ t.shown ++ ", resolve() gave "
      ++ c.name)

/-- The schema that an item has to be for paths to be followed through it. -/
def root (item : Item) : Except Failure Schema :=
  item.require (.notASchema .resolved)

@[simp] theorem root_schema (s : Schema) : root (.schema s) = .ok s := rfl

/-- Check that a schema and a type agree on a path. -/
def check (scope : Scope) (names : Names) (limit : Nat) (item : Item) (t : StaticType)
    (path : PathArgument) : Trail NodeId Unit := do
  let t ← Trail.lift (names.typeAt limit t path)
  let s ← Trail.lift (root item)
  let landed ← (scope.resolve limit s path).attempt Failure.isPathFailure
  match disagreement? path t (landed.map Schema.schemaClass) with
  | none => return ()
  | some text => Trail.fail (.disagreement text)

end Schemata.Agreement
