import Schemata.StaticType.Names
import Schemata.Traversal

/-!
# Static types as nodes of a traversal

Paths are followed through types by the same fold as through schemas. No step through a type fails
for lack of a child: a missing parameter is the type that nothing belongs to. A step to a property
fails if the field cannot be looked up.
-/

namespace Schemata

namespace Names

/-- The type inside that of a transparent schema. A pipe is followed on its output side. -/
def innerOf (names : Names) (t : StaticType) : StaticType :=
  if t.kind = .pipe then names.arg t 1 else names.arg t 0

/-- A field of a shape, when it is looked up by its name. -/
def fieldOf? (names : Names) (id : ShapeId) (fields : List (String × StaticType)) (name : String) :
    Except Failure (Option StaticType) :=
  match fields.lookup name with
  | some field => (names.field id field).map some
  | none => .ok none

/-- The type of a property, when it is looked up in the shape of an object type. -/
def property? (names : Names) (t : StaticType) (name : String) :
    Except Failure (Option StaticType) :=
  match names.arg t 0 with
  | .shape id _ fields _ => names.fieldOf? id fields name
  | _ => .ok none

/-- Fields of a shape, looked up one by one, up to the first that fails, and how it fails. -/
def fieldsOf (names : Names) (id : ShapeId) :
    List (String × StaticType) → List (String × StaticType) × Option Failure
  | [] => ([], none)
  | (name, field) :: rest =>
    match names.field id field with
    | .error failure => ([], some failure)
    | .ok t =>
      let (fields, fault) := fieldsOf names id rest
      ((name, t) :: fields, fault)

/-- All properties of an object type, looked up one by one. -/
def propertiesOf (names : Names) (t : StaticType) : Except Failure (List (String × StaticType)) :=
  match names.arg t 0 with
  | .shape id _ fields _ =>
    match names.fieldsOf id fields with
    | (_, some failure) => .error failure
    | (fields, none) => .ok fields
  | _ => .ok []

/-- Types as nodes. -/
def view (names : Names) : View StaticType where
  kind := StaticType.kind
  inner t := .ok (names.innerOf t)
  property? := names.property?
  element t := .ok (names.arg t 0)
  value t := .ok (names.arg t 1)
  items t := .ok t.args
  options t := .ok t.args

@[simp] theorem view_kind (names : Names) (t : StaticType) : names.view.kind t = t.kind := rfl

@[simp] theorem view_inner (names : Names) (t : StaticType) :
    names.view.inner t = .ok (names.innerOf t) := rfl

/-- The type at a path. A path that is malformed or does not fit leads to no type at all. -/
def typeAt (names : Names) (limit : Nat) (t : StaticType) (path : PathArgument) :
    Except Failure StaticType :=
  let found := do
    let (text, pieces) ← path.coerce
    (names.view.walkPieces limit text t pieces).outcome
  match found with
  | .ok t => .ok t
  | .error failure => if failure.isPathFailure then .ok .never else .error failure

/-- The kind that lets a property of this type be absent, if any. `budget` types are looked at. -/
def absence (names : Names) : (budget : Nat) → StaticType → Option Kind
  | 0, _ => none
  | budget + 1, t =>
    match t.kind with
    | .optional => some .optional
    | .default => some .default
    | .nullable | .readonly | .lazy | .pipe => names.absence budget (names.arg t 0)
    | _ => none

end Names

end Schemata
