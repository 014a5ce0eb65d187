import Schemata.Function
import Schemata.Schema.Class
import Schemata.Value.Basic

/-!
# Schemas

A schema describes values. Children are held directly, so a schema is a finite tree; recursion
goes through lazy schemas, which are known by their identity alone and find their target in a
`Scope`. Every schema has an identity of its own, and two places that hold one schema hold the same
identity.
-/

namespace Schemata

/-- Identity of a schema. -/
abbrev NodeId := Nat

/-- Schemas without children. -/
inductive Leaf where
  | base
  | string (strict : Bool)
  | number (strict : Bool)
  | integer (strict : Bool)
  | boolean (strict : Bool)
  | null
  | any
  | literal (value : Value)
  | enum (values : List Value)
  | transform (function : Function)
  deriving Inhabited

/-- Transparent schemas around one inner schema. -/
inductive Wrapper where
  | optional
  | nullable
  | readonly
  | default (value : Value)

inductive Schema where
  | leaf (id : NodeId) (leaf : Leaf)
  | object (id : NodeId) (shape : List (String × Schema))
  | array (id : NodeId) (element : Schema)
  | record (id : NodeId) (key value : Schema)
  | tuple (id : NodeId) (items : List Schema)
  | union (id : NodeId) (options : List Schema)
  | wrapper (id : NodeId) (wrapper : Wrapper) (inner : Schema)
  | lazy (id : NodeId)
  | pipe (id : NodeId) (input output : Schema)
  deriving Inhabited

def Leaf.schemaClass : Leaf → SchemaClass
  | base => .base
  | string _ => .string
  | number _ => .number
  | integer _ => .integer
  | boolean _ => .boolean
  | null => .null
  | any => .any
  | literal _ => .literal
  | enum _ => .enum
  | transform _ => .transform

def Wrapper.schemaClass : Wrapper → SchemaClass
  | optional => .optional
  | nullable => .nullable
  | readonly => .readonly
  | default _ => .default

namespace Schema

def id : Schema → NodeId
  | leaf id _ => id
  | object id _ => id
  | array id _ => id
  | record id _ _ => id
  | tuple id _ => id
  | union id _ => id
  | wrapper id _ _ => id
  | lazy id => id
  | pipe id _ _ => id

def schemaClass : Schema → SchemaClass
  | leaf _ l => l.schemaClass
  | object .. => .object
  | array .. => .array
  | record .. => .record
  | tuple .. => .tuple
  | union .. => .union
  | wrapper _ w _ => w.schemaClass
  | lazy _ => .lazy
  | pipe .. => .pipe

def kind (s : Schema) : Kind :=
  s.schemaClass.kind

@[simp] theorem kind_lazy (id : NodeId) : (lazy id).kind = .lazy := rfl

theorem eq_object_of_kind {s : Schema} (h : s.kind = .object) : ∃ id shape, s = .object id shape := by
  cases s with
  | object id shape => exact ⟨id, shape, rfl⟩
  | leaf _ l => cases l <;> cases h
  | wrapper _ w => cases w <;> cases h
  | _ => cases h

theorem eq_array_of_kind {s : Schema} (h : s.kind = .array) : ∃ id element, s = .array id element := by
  cases s with
  | array id element => exact ⟨id, element, rfl⟩
  | leaf _ l => cases l <;> cases h
  | wrapper _ w => cases w <;> cases h
  | _ => cases h

theorem eq_record_of_kind {s : Schema} (h : s.kind = .record) :
    ∃ id key value, s = .record id key value := by
  cases s with
  | record id key value => exact ⟨id, key, value, rfl⟩
  | leaf _ l => cases l <;> cases h
  | wrapper _ w => cases w <;> cases h
  | _ => cases h

theorem eq_tuple_of_kind {s : Schema} (h : s.kind = .tuple) : ∃ id items, s = .tuple id items := by
  cases s with
  | tuple id items => exact ⟨id, items, rfl⟩
  | leaf _ l => cases l <;> cases h
  | wrapper _ w => cases w <;> cases h
  | _ => cases h

theorem eq_union_of_kind {s : Schema} (h : s.kind = .union) : ∃ id options, s = .union id options := by
  cases s with
  | union id options => exact ⟨id, options, rfl⟩
  | leaf _ l => cases l <;> cases h
  | wrapper _ w => cases w <;> cases h
  | _ => cases h

/-- A transparent schema is a wrapper, a lazy schema or a pipe. -/
theorem eq_of_isTransparent {s : Schema} (h : s.kind.isTransparent = true) :
    (∃ id w inner, s = .wrapper id w inner) ∨ (∃ id, s = .lazy id)
      ∨ ∃ id input output, s = .pipe id input output := by
  cases s with
  | wrapper id w inner => exact .inl ⟨id, w, inner, rfl⟩
  | lazy id => exact .inr (.inl ⟨id, rfl⟩)
  | pipe id input output => exact .inr (.inr ⟨id, input, output, rfl⟩)
  | leaf _ l => cases l <;> cases h
  | _ => cases h

/-- The identity of a lazy schema. -/
def lazyId? : Schema → Option NodeId
  | lazy id => some id
  | _ => none

end Schema

/-- A schema, or a value that stands where a schema is expected. -/
inductive Item where
  | schema (s : Schema)
  | value (v : Value)

/-- Name of the class of a schema or of the type of a value. -/
def Item.typeName : Item → String
  | schema s => s.schemaClass.name
  | value v => v.typeName

/-- The schema that is required in some role. -/
def Item.require {ε : Type} (item : Item) (fail : String → ε) : Except ε Schema :=
  match item with
  | schema s => .ok s
  | value v => .error (fail v.typeName)

@[simp] theorem Item.require_schema {ε : Type} (s : Schema) (fail : String → ε) :
    (schema s).require fail = .ok s := rfl

end Schemata
