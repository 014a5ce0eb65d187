import Schemata.Schema.Scope
import Schemata.StaticType.Names
import Schemata.Stateful
import Std.Data.String.ToNat

/-!
# Deriving types from schemas

The type of a schema has the structure of the schema. A lazy schema gets a name the first time it
is met, and its type refers to that name; the type of its target is registered under the name. A
shape is numbered before its fields are derived.
-/

namespace Schemata

/-- What derivation keeps between schemas. -/
structure Registry where
  names : Names
  /-- The names of lazy schemas. -/
  lazyNames : List (NodeId × String)
  /-- How many names were given out, those of failed derivations included. -/
  lazyCount : Nat
  shapeCount : Nat
  /-- The lazy schemas that were asked for their targets, the latest first. -/
  asked : List NodeId

/-- Derivation may fail, and what was registered before stays. -/
abbrev Deriving := Stateful Registry

/-- The type of a schema without children. -/
def Leaf.staticType : Leaf → StaticType
  | .literal value => .schema .literal (some [.literalOfValue value])
  | .enum values => .schema .enum (some [.literalOf values])
  | .transform _ => .schema .transform (some [.any])
  | l => .schema l.schemaClass none

namespace Registry

/-- The `k`-th name for a lazy schema. -/
def lazyName (k : Nat) : String :=
  "DerivedLazy" ++ toString k

@[simp] theorem lazyName_inj {j k : Nat} : lazyName j = lazyName k ↔ j = k := by
  unfold lazyName
  rw [String.append_right_inj]
  exact Nat.repr_inj

/-- The name of the shape with a number. -/
def shapeName (k : Nat) : String :=
  "Shape" ++ toString k

def empty : Registry :=
  { names := .empty, lazyNames := [], lazyCount := 0, shapeCount := 0, asked := [] }

/-- Take the number of the next shape. -/
def takeShape : Deriving Nat := do
  let r ← get
  set { r with shapeCount := r.shapeCount + 1 }
  return r.shapeCount

/-- Give a lazy schema the next name. -/
def takeName (id : NodeId) : Deriving String := do
  let r ← get
  let name := lazyName r.lazyCount
  set { r with lazyCount := r.lazyCount + 1, lazyNames := (id, name) :: r.lazyNames }
  return name

/-- Take the name of a lazy schema back. -/
def forget (id : NodeId) : Deriving Unit :=
  modify fun r => { r with lazyNames := r.lazyNames.filter (·.1 != id) }

/-- Register the target of a name. -/
def register (name : String) (t : StaticType) : Deriving Unit :=
  modify fun r => { r with names := { r.names with derived := (name, t) :: r.names.derived } }

/-- Ask a lazy schema for its target. -/
def targetOf (scope : Scope) (id : NodeId) : Deriving Schema := do
  modify fun r => { r with asked := id :: r.asked }
  match scope.target id with
  | .ok target => return target
  | .error failure => throw failure

end Registry

namespace Scope

open Registry

variable (scope : Scope)

mutual

/-- Derive the type of a schema. `depth` bounds how many lazy schemas are opened inside one
another. -/
def typeOf (depth : Nat) : Schema → Deriving StaticType
  | .leaf _ l => return l.staticType
  | .object _ shape => do
    let n ← takeShape
    let fields ← typeOfShape depth shape
    return .schema .object (some [.shape (.derived n) (shapeName n) fields []])
  | .array _ element => do return .schema .array (some [← typeOf depth element])
  | .record _ key value => do
    let key ← typeOf depth key
    let value ← typeOf depth value
    return .schema .record (some [key, value])
  | .tuple _ items => do return .schema .tuple (some (← typesOf depth items))
  | .union _ options => do return .schema .union (some (← typesOf depth options))
  | .wrapper _ w inner => do return .schema w.schemaClass (some [← typeOf depth inner])
  | .pipe _ input output => do
    let input ← typeOf depth input
    let output ← typeOf depth output
    return .schema .pipe (some [input, output])
  | .lazy id => do
    match (← get).lazyNames.lookup id with
    | some name => return .schema .lazy (some [.reference name])
    | none =>
      match depth with
      | 0 => throw .endlessType
      | depth + 1 => do
        let name ← takeName id
        try
          let target ← targetOf scope id
          let t ← typeOf depth target
          register name t
        catch failure =>
          forget id
          throw failure
        return .schema .lazy (some [.reference name])
termination_by s => (depth, sizeOf s)

/-- Derive the types of schemas in order. -/
def typesOf (depth : Nat) : List Schema → Deriving (List StaticType)
  | [] => return []
  | s :: rest => do
    let t ← typeOf depth s
    let ts ← typesOf depth rest
    return t :: ts
termination_by ss => (depth, sizeOf ss)

/-- Derive the types of the properties of an object in order. -/
def typeOfShape (depth : Nat) : List (String × Schema) → Deriving (List (String × StaticType))
  | [] => return []
  | (name, s) :: rest => do
    let t ← typeOf depth s
    let fields ← typeOfShape depth rest
    return (name, t) :: fields
termination_by shape => (depth, sizeOf shape)

end

/-- Derive the type of a schema. -/
def staticType (s : Schema) : Deriving StaticType :=
  scope.typeOf (scope.getters.length + 1) s

end Scope

end Schemata
