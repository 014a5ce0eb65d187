import Schemata.Function
import Schemata.Value.Basic

/-!
# Validation plans

What a schema compiles to: a tree of checks and conversions, in which a lazy schema has become a
reference to a definition. Definitions are numbered in the order in which they are first reached.
-/

namespace Schemata

/-- Where a value comes from when none is given. -/
inductive Supply where
  /-- A copy of a fixed value, which is not validated. -/
  | copy (value : Value)
  /-- The mark of absence itself, which is validated. -/
  | absence

/-- A property of an object. A property that is not required may be left out. -/
structure Field (α : Type) where
  name : String
  plan : α
  required : Bool

inductive Plan where
  | string (strict : Bool)
  | number (strict : Bool)
  | integer (strict : Bool)
  | boolean (strict : Bool)
  | null
  | any
  | literal (expected : List Value)
  | list (items : Plan)
  | dict (keys values : Plan)
  | tuple (items : List Plan)
  | union (choices : List Plan)
  | nullable (inner : Plan)
  | chain (first second : Plan)
  | object (fields : List (Field Plan))
  /-- Turns absence into nothing. -/
  | noneIfMissing (inner : Plan)
  /-- Turns absence into a copy of a value. -/
  | valueIfMissing (value : Value) (inner : Plan)
  /-- Supplies a value where the container has none. -/
  | supplied (supply : Supply) (inner : Plan)
  | call (function : Function)
  | reference (definition : Nat)
  deriving Inhabited

/-- A plan with the definitions that it refers to, in the order in which they were completed. -/
structure Validator where
  root : Plan
  definitions : List (Nat × Plan)

namespace Validator

def definition? (v : Validator) (n : Nat) : Option Plan :=
  v.definitions.lookup n

/-- Name of a definition. -/
def definitionName (n : Nat) : String :=
  "schemapath-lazy-" ++ toString n

end Validator

namespace Plan

/-- A union of one choice stands for its choice. -/
def alone : Plan → Plan
  | .union [choice] => alone choice
  | p => p

/-- What a plan supplies where its container has no value. -/
def supply? (p : Plan) : Option Supply :=
  match p.alone with
  | .supplied supply _ => some supply
  | _ => none

end Plan

end Schemata
