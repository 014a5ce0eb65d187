import Schemata.Plan.Basic
import Schemata.Schema.Absence

/-!
# Compiling schemas

A lazy schema becomes a definition the first time it is reached, named before its target is
compiled. Later occurrences, those inside the target included, become references to it.
-/

namespace Schemata

/-- Definitions made so far. -/
structure Draft where
  /-- Lazy schemas in the order in which they were reached; a position is a definition number. -/
  reached : List NodeId
  definitions : List (Nat × Plan)

namespace Draft

def empty : Draft :=
  { reached := [], definitions := [] }

def number? (d : Draft) (id : NodeId) : Option Nat :=
  d.reached.findIdx? (· == id)

def reach (d : Draft) (id : NodeId) : Draft :=
  { d with reached := d.reached ++ [id] }

def complete (d : Draft) (n : Nat) (plan : Plan) : Draft :=
  { d with definitions := d.definitions ++ [(n, plan)] }

end Draft

/-- Compilation, which also remembers the lazy schemas that were asked for their targets. -/
abbrev Compilation := StateT Draft (Trail NodeId)

namespace Scope

def failCompilation {α : Type} (failure : Failure) : Compilation α :=
  fun _ => .fail failure

/-- Follow lazy schemas to the first schema that is not lazy. `budget` schemas are looked at. -/
def force (scope : Scope) (limit : Nat) : (budget : Nat) → Schema → Trail NodeId Schema
  | 0, _ => .fail (.endlessLazy limit)
  | budget + 1, s =>
    match s with
    | .lazy id => do
      let next ← scope.ask id
      scope.force limit budget next
    | _ => pure s

def planOfLeaf : Leaf → Compilation Plan
  | .base => failCompilation (.notValidating SchemaClass.base.name)
  | .string strict => pure (.string strict)
  | .number strict => pure (.number strict)
  | .integer strict => pure (.integer strict)
  | .boolean strict => pure (.boolean strict)
  | .null => pure .null
  | .any => pure .any
  | .literal value => pure (.literal [value])
  | .enum values => pure (.literal values)
  | .transform function => pure (.call function)

def planOfWrapper (w : Wrapper) (inner : Plan) : Plan :=
  match w with
  | .optional => .noneIfMissing inner
  | .nullable => .nullable inner
  | .readonly => inner
  | .default value => .supplied (.copy value) (.valueIfMissing value inner)

/-- The field of an object for a property with schema `s` and plan `plan`. A default that is not
the outermost wrapper is reached by validating absence through the whole plan. -/
def fieldOf (name : String) (s : Schema) (plan : Plan) : Option Kind → Field Plan
  | none => { name, plan, required := true }
  | some absence =>
    if absence = .default ∧ !s.kind.allowsAbsence then
      { name, plan := .supplied .absence plan, required := false }
    else { name, plan, required := false }

variable (scope : Scope) (limit : Nat)

mutual

/-- Compile a schema. `depth` bounds how many lazy schemas are opened inside one another. -/
def planOf (depth : Nat) : Schema → Compilation Plan
  | .leaf _ l => planOfLeaf l
  | .object _ shape => do return .object (← planOfShape depth shape)
  | .array _ element => do return .list (← planOf depth element)
  | .record _ key value => do
    let keys ← planOf depth key
    let values ← planOf depth value
    return .dict keys values
  | .tuple _ items => do return .tuple (← planOfAll depth items)
  | .union _ options => do return .union (← planOfAll depth options)
  | .wrapper _ w inner => do return planOfWrapper w (← planOf depth inner)
  | .pipe _ input output => do
    let first ← planOf depth input
    let second ← planOf depth output
    return .chain first second
  | .lazy id => do
    let draft ← get
    match draft.number? id with
    | some n => return .reference n
    | none =>
      match depth with
      | 0 => failCompilation .endlessType
      | depth + 1 => do
        let n := draft.reached.length
        set (draft.reach id)
        let target ← (scope.force limit limit (.lazy id) : Trail NodeId Schema)
        let plan ← planOf depth target
        modify (·.complete n plan)
        return .reference n
termination_by s => (depth, sizeOf s)

def planOfAll (depth : Nat) : List Schema → Compilation (List Plan)
  | [] => return []
  | s :: rest => do
    let plan ← planOf depth s
    let plans ← planOfAll depth rest
    return plan :: plans
termination_by ss => (depth, sizeOf ss)

def planOfShape (depth : Nat) : List (String × Schema) → Compilation (List (Field Plan))
  | [] => return []
  | (name, s) :: rest => do
    let plan ← planOf depth s
    let absence ← (scope.absence limit s : Trail NodeId (Option Kind))
    let fields ← planOfShape depth rest
    return fieldOf name s plan absence :: fields
termination_by shape => (depth, sizeOf shape)

end

/-- Compile a schema with all that it refers to. -/
def compile (s : Schema) : Trail NodeId Validator := do
  let (root, draft) ← (scope.planOf limit (scope.getters.length + 1) s).run .empty
  return { root, definitions := draft.definitions }

end Scope

end Schemata
