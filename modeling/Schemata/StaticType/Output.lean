import Schemata.Stateful
import Schemata.StaticType.View

/-!
# Types of validated values

The type of the values that the schemas of a type let through. The values of an object have a shape
of their own, which is built once for each shape. Inside itself, a shape that is not complete is
referred to by name.
-/

namespace Schemata

/-- The output shapes that are complete, by the shape that they were built for. -/
abbrev OutputCache := List (ShapeId × StaticType)

/-- The computation of an output type may fail, and the shapes that were completed before stay. -/
abbrev Outputting := Stateful OutputCache

namespace StaticType

mutual

/-- How often shapes occur in a type. -/
def shapeCount : StaticType → Nat
  | schema _ (some args) => shapeCountAll args
  | shape _ _ fields _ => 1 + shapeCountFields fields
  | list item => shapeCount item
  | dict key value => shapeCount key + shapeCount value
  | tuple items => shapeCountAll items
  | union members => shapeCountAll members
  | _ => 0

def shapeCountAll : List StaticType → Nat
  | [] => 0
  | t :: rest => shapeCount t + shapeCountAll rest

def shapeCountFields : List (String × StaticType) → Nat
  | [] => 0
  | (_, t) :: rest => shapeCount t + shapeCountFields rest

end

/-- The output type of the bare class of a leaf. -/
def ofLeafClass : SchemaClass → StaticType
  | .string => plain .str
  | .number => plain .float
  | .integer => plain .int
  | .boolean => plain .bool
  | .null => none
  | _ => any

end StaticType

namespace Names

/-- How often shapes occur in a type and behind all names. -/
def shapeBound (names : Names) (t : StaticType) : Nat :=
  t.shapeCount + StaticType.shapeCountFields names.all

variable (names : Names) (limit : Nat)

mutual

/-- The output type of a type. At most `objects` objects are entered inside one another, and at
most `references` references are followed without entering another object. `building` are the
shapes that are being built. -/
def outputIn (objects references : Nat) (building : List ShapeId) :
    StaticType → Outputting StaticType
  | .schema .object args => outputOfShape objects references building args
  | .schema .array args => do
    return .list (← outputOfArg objects references building args 0)
  | .schema .record args => do
    let key ← outputOfArg objects references building args 0
    let value ← outputOfArg objects references building args 1
    return .dict key value
  | .schema .tuple none => return .tuple []
  | .schema .tuple (some args) => do return .tuple (← outputsIn objects references building args)
  | .schema .union none => return .never
  | .schema .union (some args) => do
    if args.isEmpty then return .never
    else
      let members ← outputsIn objects references building args
      StaticType.unionOf members
  | .schema .optional args => do
    let inner ← outputOfArg objects references building args 0
    StaticType.unionOf [inner, .none]
  | .schema .nullable args => do
    let inner ← outputOfArg objects references building args 0
    StaticType.unionOf [inner, .none]
  | .schema .default args => outputOfArg objects references building args 0
  | .schema .readonly args => outputOfArg objects references building args 0
  | .schema .lazy args => outputOfArg objects references building args 0
  | .schema .pipe args => outputOfArg objects references building args 1
  | .schema _ (some (argument :: _)) => return argument
  | .schema c _ => return .ofLeafClass c
  | _ => return .never
termination_by t => (objects, references, sizeOf t)

/-- The output types of types in order. -/
def outputsIn (objects references : Nat) (building : List ShapeId) :
    List StaticType → Outputting (List StaticType)
  | [] => return []
  | t :: rest => do
    let t ← outputIn objects references building t
    let rest ← outputsIn objects references building rest
    return t :: rest
termination_by ts => (objects, references, sizeOf ts)

/-- The output type of the parameter at a position. -/
def outputOfArg (objects references : Nat) (building : List ShapeId) :
    (args : Option (List StaticType)) → (position : Nat) → Outputting StaticType
  | none, _ => return .never
  | some [], _ => return .never
  | some (.reference name :: _), 0 =>
    match references with
    | 0 => throw .endlessType
    | references + 1 =>
      outputIn objects references building ((names.derived.lookup name).getD .never)
  | some (t :: _), 0 => outputIn objects references building t
  | some (_ :: rest), position + 1 => outputOfArg objects references building (some rest) position
termination_by args => (objects, references, sizeOf args)

/-- The output type of an object type with parameters `args`. A field that cannot be looked up makes it
fail after the fields before. -/
def outputOfShape (objects _references : Nat) (building : List ShapeId)
    (args : Option (List StaticType)) : Outputting StaticType := do
  match names.arg (.schema .object args) 0 with
  | .shape id name fields _ =>
    match (← get).lookup id with
    | some output => return output
    | none =>
      if building.contains id then return .reference (name ++ "Output")
      else
        match objects with
        | 0 => throw .endlessType
        | objects + 1 => do
          let (fields, fault) := names.fieldsOf id fields
          let made ← outputFields objects (names.derived.length + 1) (id :: building) fields
          match fault with
          | some failure => throw failure
          | none => do
            let optional := (made.filter (·.2.2)).map (·.1)
            let output := StaticType.shape (.output id) (name ++ "Output")
              (made.map fun (name, t, _) => (name, t)) optional
            modify fun cache => (id, output) :: cache
            return output
  | _ => return .dict (.plain .str) .any
termination_by (objects, _references, 0)

/-- The output types of fields in order, with a mark on those that may be absent. -/
def outputFields (objects references : Nat) (building : List ShapeId) :
    List (String × StaticType) → Outputting (List (String × StaticType × Bool))
  | [] => return []
  | (name, t) :: rest => do
    let output ← outputIn objects references building t
    let rest ← outputFields objects references building rest
    return (name, output, names.absence limit t == some .optional) :: rest
termination_by fields => (objects, references, sizeOf fields)

end

/-- The output type of a type. -/
def outputOf (t : StaticType) : Outputting StaticType :=
  names.outputIn limit (names.shapeBound t) (names.derived.length + 1) [] t

end Names

end Schemata
