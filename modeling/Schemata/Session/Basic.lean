import Schemata.Log.Record
import Schemata.Path.Description
import Schemata.Plan.OfSchema
import Schemata.Schema.Description
import Schemata.Settings.Environment
import Schemata.StaticType.Blueprint
import Schemata.StaticType.Derivation
import Schemata.StaticType.Output
import Schemata.Validation.Run

/-!
# Sessions

What outlives a single operation: the schemas and types that were made, the settings, the log
handlers, and everything that is remembered so as not to be computed twice.
-/

namespace Schemata

/-- Which getters of lazy schemas have run. -/
structure CallLog where
  /-- One entry for every run, the latest first. -/
  runs : List NodeId
  /-- The lazy schemas that have their target. -/
  forced : List NodeId

namespace CallLog

def empty : CallLog :=
  { runs := [], forced := [] }

/-- A lazy schema is asked for its target. Its getter runs unless the target is there already, and
the target is kept if the getter gives one. -/
def ask (scope : Scope) (log : CallLog) (id : NodeId) : CallLog :=
  if log.forced.contains id then log
  else
    { runs := id :: log.runs
      forced := if (scope.target id).isOk then id :: log.forced else log.forced }

def askAll (scope : Scope) (log : CallLog) (ids : List NodeId) : CallLog :=
  ids.foldl (ask scope) log

/-- How often the getter of a lazy schema has run. -/
def count (log : CallLog) (id : NodeId) : Nat :=
  log.runs.count id

end CallLog

/-- The logger. -/
structure Logger where
  level : Value
  handlers : List Log.Handler

structure Session where
  settings : Settings
  logger : Logger
  workshop : Workshop
  calls : CallLog
  /-- How many schemas belong to the definitions. -/
  definedCount : Nat
  registry : Registry
  outputs : OutputCache
  /-- The plans of schemas that have parsed a value. -/
  validators : List (NodeId × Validator)

/-- A step of a session. What happened before a failure is not undone. -/
abbrev Activity := Stateful Session

namespace Session

def initial : Session :=
  { settings := .initial
    logger := { level := .int 0, handlers := [] }
    workshop := .empty
    calls := .empty
    definedCount := 0
    registry := .empty
    outputs := []
    validators := [] }

def limit : Activity Nat := do
  return (← get).settings.maxUnwrapDepth

def scope : Activity Scope := do
  return (← get).workshop.scope

def names : Activity Names := do
  return (← get).registry.names

variable {α : Type}

/-- Make schemas in the workshop of the session. -/
def making (m : Making α) : Activity α := do
  match m (← get).workshop with
  | .ok (a, workshop) =>
    modify fun s => { s with workshop }
    return a
  | .error failure => throw failure

/-- Note that lazy schemas were asked for their targets. -/
def note (ids : List NodeId) : Activity Unit :=
  modify fun s => { s with calls := s.calls.askAll s.workshop.scope ids }

/-- Follow a trail. -/
def following (t : Trail NodeId α) : Activity α := do
  note t.entered
  match t.outcome with
  | .ok a => return a
  | .error failure => throw failure

def registering (d : Deriving α) : Activity α := do
  let (outcome, registry) := d.exec { (← get).registry with asked := [] }
  modify fun s => { s with registry }
  note registry.asked.reverse
  match outcome with
  | .ok a => return a
  | .error failure => throw failure

def outputting (o : Outputting α) : Activity α := do
  let (outcome, outputs) := o.exec (← get).outputs
  modify fun s => { s with outputs }
  match outcome with
  | .ok a => return a
  | .error failure => throw failure

/-- Run an activity and turn its failure into a result. -/
def attempt (a : Activity α) : Activity (Except Failure α) := do
  try
    return .ok (← a)
  catch failure =>
    return .error failure

end Session

end Schemata
