import Schemata.Schema.Basic
import Schemata.Trail

/-!
# Scopes

A scope knows the named schemas and what the getter of each lazy schema gives. A getter that names
a schema looks the name up when it runs, so a lazy schema can refer to a name that is defined later.
-/

namespace Schemata

/-- What running the getter of a lazy schema does. -/
inductive Getter where
  /-- Gives what is defined under a name. -/
  | named (name : String)
  | value (v : Value)
  | fails (text : String)

structure Scope where
  /-- Definitions, the latest first. -/
  defs : List (String × Item)
  /-- Getters of the lazy schemas. -/
  getters : List (NodeId × Getter)

namespace Scope

def empty : Scope :=
  { defs := [], getters := [] }

def lookup? (scope : Scope) (name : String) : Option Item :=
  scope.defs.lookup name

/-- What the getter gives. An undefined name gives no value. -/
def run (scope : Scope) : Getter → Except Failure Item
  | .named name => .ok ((scope.lookup? name).getD (.value .none))
  | .value v => .ok (.value v)
  | .fails text => .error (.getterFailed text)

/-- The schema behind a lazy schema. -/
def target (scope : Scope) (id : NodeId) : Except Failure Schema :=
  match scope.getters.lookup id with
  | none => .error (.notASchema .target Value.none.typeName)
  | some getter =>
    match scope.run getter with
    | .error failure => .error failure
    | .ok item => item.require (.notASchema .target)

/-- Ask a lazy schema for its target, and remember that it was asked. -/
def ask (scope : Scope) (id : NodeId) : Trail NodeId Schema :=
  .enter id (scope.target id)

@[simp] theorem entered_ask (scope : Scope) (id : NodeId) : (scope.ask id).entered = [id] := rfl

@[simp] theorem outcome_ask (scope : Scope) (id : NodeId) :
    (scope.ask id).outcome = scope.target id := rfl

end Scope

end Schemata
