import Schemata.Agreement
import Schemata.Session.Operation
import Schemata.Session.Preparation

/-!
# Activities

What a session does with schemas, types and settings that are made already.
-/

namespace Schemata

namespace Session

-- ---------------------------------------------------------------------------
-- Schemas
-- ---------------------------------------------------------------------------

def describe (s : Schema) : Activity Description := do
  return (← get).workshop.describe s

/-- The schema at a path. -/
def schemaAt (item : Item) (path : PathArgument) : Activity Schema := do
  let s ← ofExcept (Agreement.root item)
  following ((← scope).resolve (← limit) s path)

/-- The line that resolving a path has logged; the empty path logs nothing. -/
def resolutionLog (path : PathArgument) (s : Schema) : List String :=
  match path.coerce with
  | .ok (text, _ :: _) => [Level.debug.name ++ " " ++ s.arrivalNotice text]
  | _ => []

/-- Read a part of a schema. -/
def accessPart (function : Access) (item : Item) : Activity Answer := do
  match function with
  | .child accessor => do
    let s ← ofExcept (item.require (.notASchema (.accessed accessor)))
    match accessor with
    | .shape => do
      let shape ← ofExcept s.shapeOf
      return .shape (← shape.mapM fun (name, child) => do return (name, ← describe child))
    | .element => do return .schema (← describe (← ofExcept s.elementOf))
    | .value => do return .schema (← describe (← ofExcept s.valueOf))
    | .items => do return .schemas (← (← ofExcept s.itemsOf).mapM describe)
    | .options => do return .schemas (← (← ofExcept s.optionsOf).mapM describe)
  | .inner => do
    let s ← ofExcept (item.require (.notASchema .wrapper))
    note s.lazyId?.toList
    return .schema (← describe (← ofExcept (s.innerOf (← scope))))

/-- Follow segments without looking at the path text. -/
def walkFrom (item : Item) (pieces : List Piece) (text : String) : Activity Schema := do
  let s ← ofExcept (item.require (.notASchema .node))
  following (((← scope).view.walkPieces (← limit) text s pieces).filterMap Schema.lazyId?)

/-- The kind that lets a property be absent. What is no schema allows no absence. -/
def absenceOf (item : Item) : Activity (Option Kind) := do
  match item with
  | .schema s => following ((← scope).absence (← limit) s)
  | .value _ => return none

-- ---------------------------------------------------------------------------
-- Validation
-- ---------------------------------------------------------------------------

/-- The method of schemas that compiling one begins with. -/
def compileMethod : String := "_core_schema"

def compileItem (item : Item) : Activity Validator := do
  let s ← ofExcept (item.require (.noAttribute · compileMethod))
  following ((← scope).compile (← limit) s)

/-- The plan of a schema, which is made once. -/
def validatorOf (s : Schema) : Activity Validator := do
  match (← get).validators.lookup s.id with
  | some v => return v
  | none => do
    let v ← following ((← scope).compile (← limit) s)
    modify fun state => { state with validators := (s.id, v) :: state.validators }
    return v

/-- Validate a value with a schema. -/
def parseWith (item : Item) (v : Value) : Activity Value := do
  let s ← ofExcept (item.require (.noAttribute · "parse"))
  let validator ← validatorOf s
  ofExcept (validator.validate v)

/-- Append an item to a list. -/
def appendItem (item : Value) : Value → Except Failure Value
  | .list items => .ok (.list (items ++ [item]))
  | v => .error (.noAttribute v.typeName "append")

/-- Append an item to a result, or to what it holds under a key. -/
def appendTo (target : AppendTarget) (item result : Value) : Except Failure Value :=
  match target, result with
  | .entry key, .dict entries => do
    let held := (entries.find? fun entry => entry.1.equal key).map (·.2)
    let extended ← appendItem item (held.getD .none)
    return .dict (setEntry key extended entries)
  | _, result => appendItem item result

-- ---------------------------------------------------------------------------
-- Types
-- ---------------------------------------------------------------------------

def typeAtPath (t : StaticType) (path : PathArgument) : Activity StaticType := do
  ofExcept ((← names).typeAt (← limit) t path)

def outputOfType (t : StaticType) : Activity StaticType := do
  outputting ((← names).outputOf (← limit) t)

/-- Whether two types are equal; a comparison that fails counts as a difference. -/
def isEqual (a b : StaticType) : Bool :=
  match StaticType.equal a b with
  | .ok same => same
  | .error _ => false

/-- Whether two output types are one and the same object. Lists, dictionaries and tuples are built
anew each time; literals and unions are the same if they have the same members in the same order. -/
def sameObject : StaticType → StaticType → Bool
  | .list _, _ => false
  | .dict _ _, _ => false
  | .tuple _, _ => false
  | .literal vs, .literal ws =>
    vs.length == ws.length && (vs.zip ws).all fun (v, w) => v.equalTyped w
  | .union ss, .union ts => ss.length == ts.length && (ss.zip ts).all fun (s, t) => isEqual s t
  | a, b => isEqual a b

def accessTypePart (function : TypeAccess) (t : StaticType) : Activity Answer := do
  let names ← names
  match function with
  | .kind => return .text t.kind.name
  | .inner => return .type (names.innerOf t)
  | .element => return .type (names.arg t 0)
  | .value => return .type (names.arg t 1)
  | .items => return .types t.args
  | .options => return .types t.args
  | .properties key =>
    let properties ← ofExcept (names.propertiesOf t)
    match key.unhashable? with
    | some given => throw (.unhashable given)
    | none =>
      return .properties properties (properties.any fun entry => key.equal (.str entry.1))

/-- Check that a schema and a type agree on a path. Without a type, the one that is derived from the
schema is taken. -/
def agree (item : Item) (t : Option StaticType) (path : PathArgument) : Activity Unit := do
  let t ← match t with
    | none => deriveType item
    | some .none => deriveType item
    | some t => pure t
  following (Agreement.check (← scope) (← names) (← limit) item t path)

-- ---------------------------------------------------------------------------
-- Settings and logging
-- ---------------------------------------------------------------------------

/-- Assign settings one by one. Those before a failing one stay. -/
def assignAll : List (String × Value) → Activity Unit
  | [] => return ()
  | (name, v) :: rest => do
    let settings ← ofExcept ((← get).settings.assign name v)
    modify fun s => { s with settings }
    assignAll rest

/-- Run an activity under changed settings and restore all settings afterwards, whatever happens. -/
def withSettings {α : Type} (overrides : List (String × Value)) (body : Activity α) :
    Activity α := do
  let snapshot := (← get).settings.dump
  try
    assignAll overrides
    let result ← body
    assignAll snapshot
    return result
  catch failure =>
    assignAll snapshot
    throw failure

/-- Set the level of the logger, and add a handler if there is none. -/
def configureLogger (level : Option Value) : Activity Logger := do
  let settings := (← get).settings
  let level ← match level with
    | some .none => pure (.int settings.logLevel.number)
    | some v => ofExcept (Level.ofValue v)
    | none => pure (.int settings.logLevel.number)
  let handlers := match (← get).logger.handlers with
    | [] => [if settings.richLogging then Log.Handler.rich else .plain]
    | handlers => handlers
  let logger : Logger := { level, handlers }
  modify fun s => { s with logger }
  return logger

/-- The tally behind an operation. -/
def tally : Activity Tally := do
  let s ← get
  let defined := s.workshop.scope.getters.reverse.filter (·.1 < s.definedCount)
  return {
    calls := defined.map fun entry =>
      ((s.workshop.labels.lookup entry.1).getD "", s.calls.count entry.1)
    depth := s.settings.maxUnwrapDepth }

end Session

end Schemata
