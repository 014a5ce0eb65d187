import Schemata.Schema.Scope
import Schemata.Value.Equality

/-!
# Blueprints

A blueprint describes how a schema is made: which constructor, of which parts, or which fluent
methods in a row. Building one checks what the constructors check, gives every schema an identity
and a label that tells where it was built, and keeps the getters of lazy schemas.
-/

namespace Schemata

/-- A fluent method of schemas, applied to the schema made so far. -/
inductive Method (α : Type) where
  | wrapper (w : Wrapper)
  | array
  | pipe (output : α)
  | transform (function : Function)

inductive Blueprint where
  | leaf (l : Leaf)
  /-- An enumeration of the elements of a value. -/
  | enum (values : Value)
  | object (shape : List (Value × Blueprint))
  | array (element : Blueprint)
  | record (key value : Blueprint)
  | tuple (items : List Blueprint)
  | union (options : List Blueprint)
  | wrapper (w : Wrapper) (inner : Blueprint)
  | pipe (input output : Blueprint)
  | lazy (getter : Getter)
  /-- The very schema that a name was given to. -/
  | named (name : String)
  /-- A value where a schema is expected. -/
  | value (v : Value)
  | chain (base : Blueprint) (methods : List (Method Blueprint))
  /-- As many wrappers around `base` as `count` tells, taken from `wrappers` in turn. -/
  | wrapped (base : Blueprint) (count : Nat) (wrappers : List Wrapper)
  deriving Inhabited

/-- Where schemas are made. -/
structure Workshop where
  scope : Scope
  /-- Labels of schemas; the first one for an identity counts. -/
  labels : List (NodeId × String)
  nextId : NodeId

namespace Workshop

def empty : Workshop :=
  { scope := .empty, labels := [], nextId := 0 }

def label (w : Workshop) (s : Schema) : String :=
  (w.labels.lookup s.id).getD ""

end Workshop

/-- Work in a workshop. -/
abbrev Making := StateT Workshop (Except Failure)

namespace Making

def fail {α : Type} (failure : Failure) : Making α :=
  fun _ => .error failure

def lift {α : Type} (outcome : Except Failure α) : Making α :=
  fun w => outcome.map (·, w)

/-- Give a new schema its identity and its label. -/
def register (label : String) (make : NodeId → Schema) : Making Schema :=
  fun w => .ok (make w.nextId,
    { w with labels := (w.nextId, label) :: w.labels, nextId := w.nextId + 1 })

/-- Keep the getter of a lazy schema. -/
def keepGetter (id : NodeId) (getter : Getter) : Making Unit :=
  modify fun w => { w with scope := { w.scope with getters := (id, getter) :: w.scope.getters } }

def relabel (label : String) (s : Schema) : Making Unit :=
  modify fun w => { w with labels := (s.id, label) :: w.labels }

/-- Define a name. -/
def define (name : String) (item : Item) : Making Unit :=
  modify fun w => { w with scope := { w.scope with defs := (name, item) :: w.scope.defs } }

/-- A child that the constructor of a class accepts. -/
def child (owner : SchemaClass) (item : Item) : Making Schema :=
  lift (item.require (.notASchema (.child owner)))

def children (owner : SchemaClass) (items : List Item) : Making (List Schema) :=
  items.mapM (child owner)

/-- The schema that a method is called on. -/
def receiver (method : String) (item : Item) : Making Schema :=
  lift (item.require (.noAttribute · method))

end Making

namespace Blueprint

open Making

/-- Put a child under a key. A key that is present keeps its place and gets the new child. -/
def setChild (key : Value) (item : Item) : List (Value × Item) → List (Value × Item)
  | [] => [(key, item)]
  | (k, i) :: rest => if k.equal key then (k, item) :: rest else (k, i) :: setChild key item rest

/-- The shape of an object: all keys are text and all children schemas. -/
def shapeOf (entries : List (Value × Item)) : Making (List (String × Schema)) :=
  entries.mapM fun (key, item) =>
    match key with
    | .str name => do return (name, ← child .object item)
    | _ => fail (.keyNotText key.classPath)

def methodName {α : Type} : Method α → String
  | .wrapper w => w.schemaClass.kind.name
  | .array => "array"
  | .pipe _ => "pipe"
  | .transform _ => "transform"

/-- `count` wrappers taken in turn from `wrappers`, the first of them innermost. -/
def wrapTimes (label : String) (wrappers : List Wrapper) (count : Nat) (base : Item) :
    Making Item :=
  (List.range count).foldlM (fun item i => do
    match wrappers[i % wrappers.length]? with
    | none => return item
    | some w =>
      let inner ← receiver w.schemaClass.kind.name item
      let made ← register (label ++ "/wrap/" ++ toString i) (.wrapper · w inner)
      return .schema made) base

mutual

/-- Make what a blueprint describes, under a label. -/
def make (label : String) : Blueprint → Making Item
  | leaf l => do return .schema (← register label (.leaf · l))
  | enum values => do
    match values.elements? with
    | none => fail (.notIterable values.typeName)
    | some [] => fail .noValues
    | some members => return .schema (← register label (.leaf · (.enum members)))
  | object shape => do
    let entries ← makeShape (label ++ "/shape/") [] shape
    let shape ← shapeOf entries
    return .schema (← register label (.object · shape))
  | array element => do
    let element ← child .array (← make (label ++ "/element") element)
    return .schema (← register label (.array · element))
  | record k v => do
    let key ← make (label ++ "/key") k
    let content ← make (label ++ "/value") v
    let key ← child .record key
    let content ← child .record content
    return .schema (← register label (.record · key content))
  | tuple items => do
    let items ← children .tuple (← makeAll (label ++ "/items/") 0 items)
    return .schema (← register label (.tuple · items))
  | union options => do
    let options ← makeAll (label ++ "/options/") 0 options
    if options.isEmpty then fail .noOptions
    else do
      let options ← children .union options
      return .schema (← register label (.union · options))
  | wrapper w inner => do
    let inner ← child w.schemaClass (← make (label ++ "/inner") inner)
    return .schema (← register label (.wrapper · w inner))
  | pipe input output => do
    let input ← make (label ++ "/input") input
    let output ← make (label ++ "/output") output
    let input ← child .pipe input
    let output ← child .pipe output
    return .schema (← register label (.pipe · input output))
  | lazy getter => do
    let made ← register label .lazy
    keepGetter made.id getter
    return .schema made
  | named name => do
    let w ← get
    return (w.scope.lookup? name).getD (.value .none)
  | value v => return .value v
  | chain base methods => do
    let base ← make (label ++ "/base") base
    let made ← applyMethods (label ++ "/calls/") 0 base methods
    match made with
    | .schema s => relabel label s
    | .value _ => pure ()
    return made
  | wrapped base count wrappers => do
    let base ← make (label ++ "/base") base
    wrapTimes label wrappers count base

/-- Make blueprints in order, labelled by their positions from `start` on. -/
def makeAll (label : String) (start : Nat) : List Blueprint → Making (List Item)
  | [] => return []
  | b :: rest => do
    let item ← make (label ++ toString start) b
    let items ← makeAll label (start + 1) rest
    return item :: items

/-- Make the children of an object in order and collect them by their keys. -/
def makeShape (label : String) (made : List (Value × Item)) :
    List (Value × Blueprint) → Making (List (Value × Item))
  | [] => return made
  | (key, b) :: rest => do
    let item ← make (label ++ key.plain) b
    match key.unhashable? with
    | some given => fail (.unhashable given)
    | none => makeShape label (setChild key item made) rest

/-- Apply methods in order, labelled by their positions from `start` on. -/
def applyMethods (label : String) (start : Nat) (item : Item) :
    List (Method Blueprint) → Making Item
  | [] => return item
  | method :: rest => do
    let self ← receiver (methodName method) item
    let here := label ++ toString start
    match method with
    | .wrapper w => do
      let made ← register here (.wrapper · w self)
      applyMethods label (start + 1) (.schema made) rest
    | .array => do
      let made ← register here (.array · self)
      applyMethods label (start + 1) (.schema made) rest
    | .pipe output => do
      let output ← child .pipe (← make (here ++ "/output") output)
      let made ← register here (.pipe · self output)
      applyMethods label (start + 1) (.schema made) rest
    | .transform function => do
      let output ← register (here ++ "/output") (.leaf · (.transform function))
      let made ← register here (.pipe · self output)
      applyMethods label (start + 1) (.schema made) rest

end

/-- Make named definitions in order. -/
def defineAll : List (String × Blueprint) → Making Unit
  | [] => return ()
  | (name, b) :: rest => do
    let item ← make ("defs/" ++ name) b
    define name item
    defineAll rest

end Blueprint

end Schemata
