import Schemata.Session.Basic

/-!
# Preparing a session

Making schemas, types and paths from their descriptions, and defining the names that later operations
use.
-/

namespace Schemata

namespace Session

-- ---------------------------------------------------------------------------
-- Making schemas, types and paths
-- ---------------------------------------------------------------------------

/-- Where the schema of an operation is made. -/
def rootLabel : String := "node"

/-- Where a schema is made only for its type. -/
def typeLabel : String := "type"

def makeItem (b : Blueprint) : Activity Item :=
  making (b.make rootLabel)

/-- Make a schema that has to be one in some role. -/
def makeSchema (b : Blueprint) (fail : String → Failure) : Activity Schema := do
  ofExcept ((← makeItem b).require fail)

def makePath (d : Path.Description) : Activity PathArgument :=
  ofExcept d.make

/-- Derive the type of a schema. -/
def deriveType (item : Item) : Activity StaticType := do
  let s ← ofExcept (item.require (.notASchema .derived))
  registering ((← scope).staticType s)

/-- The namespace in which a session declares types. -/
def space : Space := 0

mutual

/-- Make what the blueprint of a type describes. -/
def makeType : TypeBlueprint → Activity StaticType
  | .constant t => return t
  | .bare c => return .schema c none
  | .applied c args => do
    let args ← makeTypes args
    ofExcept (StaticType.parameterised c args)
  | .members c values =>
    ofExcept (StaticType.parameterised c [StaticType.literalOf values])
  | .declared name => do return (((← names).declaredIn space).lookup name).getD .never
  | .forward name => return .reference name
  | .derived schema => do
    let item ← making (schema.make typeLabel)
    deriveType item

def makeTypes : List TypeBlueprint → Activity (List StaticType)
  | [] => return []
  | t :: rest => do
    let t ← makeType t
    let rest ← makeTypes rest
    return t :: rest

end

/-- Put a field into a shape. A field that is present keeps its place and gets the new type. -/
def setField (name : String) (t : StaticType) :
    List (String × StaticType) → List (String × StaticType)
  | [] => [(name, t)]
  | (n, u) :: rest => if n = name then (n, t) :: rest else (n, u) :: setField name t rest

/-- Declare a type. -/
def declare (name : String) (d : Declaration) : Activity Unit := do
  let t ← match d with
    | .type t => makeType t
    | .shape fields => do
      let made ← fields.foldlM (fun made (key, t) => do return setField key (← makeType t) made) []
      let number := (← names).declared.length
      pure (.shape (.declared space number) name made [])
  modify fun s =>
    let names := s.registry.names
    { s with registry :=
      { s.registry with names := { names with declared := (space, name, t) :: names.declared } } }

/-- Make definitions and declare types in order. -/
def prepare (defs : List (String × Blueprint)) (types : List (String × Declaration)) :
    Activity Unit := do
  for (name, b) in defs do
    making (Blueprint.defineAll [(name, b)])
  modify fun s => { s with definedCount := s.workshop.nextId }
  for (name, d) in types do
    declare name d

end Session

end Schemata
