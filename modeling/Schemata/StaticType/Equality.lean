import Schemata.Failure
import Schemata.StaticType.Basic
import Schemata.Value.Equality

/-!
# Equal types and unions

Shapes are equal only if they are the same shape. Literals are equal if they have the same members,
compared with their types, in any order; a member that cannot be compared in this way makes the
comparison fail. A union is flat and has no two equal members.
-/

namespace Schemata

namespace StaticType

/-- Fail if one of the members cannot be looked up in a set. -/
def requireHashable (members : List Value) : Except Failure Unit :=
  match Value.unhashableIn? members with
  | some given => .error (.unhashable given)
  | Option.none => .ok ()

/-- Whether two lists of literal members are the same set. -/
def sameMembers (vs ws : List Value) : Bool :=
  vs.all (fun v => ws.any (v.equalTyped ·)) && ws.all (fun w => vs.any (w.equalTyped ·))

mutual

/-- Whether two types are equal. -/
def equal : StaticType → StaticType → Except Failure Bool
  | never, never => .ok true
  | any, any => .ok true
  | none, none => .ok true
  | plain p, plain q => .ok (p == q)
  | schema c Option.none, schema d Option.none => .ok (c == d)
  | schema c (some ss), schema d (some ts) => if c = d then equalAll ss ts else .ok false
  | reference m, reference n => .ok (m == n)
  | shape m _ _ _, shape n _ _ _ => .ok (m == n)
  | literal vs, literal ws => do
    requireHashable vs
    requireHashable ws
    return sameMembers vs ws
  | list s, list t => equal s t
  | dict k s, dict l t => do
    if ← equal k l then equal s t else return false
  | tuple ss, tuple ts => equalAll ss ts
  | union ss, union ts => do
    if ss.length = ts.length then allIn ss ts else return false
  | _, _ => .ok false

/-- Whether two lists of types are equal position by position. -/
def equalAll : List StaticType → List StaticType → Except Failure Bool
  | [], [] => .ok true
  | s :: ss, t :: ts => do
    if ← equal s t then equalAll ss ts else return false
  | _, _ => .ok false

/-- Whether each of the first types equals one of the second. -/
def allIn : List StaticType → List StaticType → Except Failure Bool
  | [], _ => .ok true
  | s :: ss, ts => do
    if ← ts.anyM (equal s) then allIn ss ts else return false

end

/-- Keep the first of several equal types. -/
def distinct (types : List StaticType) : Except Failure (List StaticType) :=
  types.foldlM (fun kept t => do
    if ← kept.anyM (equal · t) then return kept else return kept ++ [t]) []

/-- The members that a type contributes to a union. -/
def unionMembers : StaticType → List StaticType
  | union members => members
  | t => [t]

/-- The union of types. A single member stands for itself. -/
def unionOf (types : List StaticType) : Except Failure StaticType := do
  match ← distinct (types.flatMap unionMembers) with
  | [only] => return only
  | members => return union members

/-- The type of some values. A value that is repeated with its type is dropped, unless some value
cannot be looked up in a set. -/
def literalOf (values : List Value) : StaticType :=
  if (Value.unhashableIn? values).isSome then literal values
  else
    literal (values.foldl (fun kept v =>
      if kept.any (·.equalTyped v) then kept else kept ++ [v]) [])

/-- The type of one value. A tuple stands for its elements. -/
def literalOfValue : Value → StaticType
  | .tuple values => literalOf values
  | v => literalOf [v]

/-- A schema type with parameters, if the class takes that many. -/
def parameterised (c : SchemaClass) (args : List StaticType) : Except Failure StaticType :=
  match c.arity with
  | .exactly n => if args.length = n then .ok (schema c (some args))
    else .error (.wrongArity c args.length)
  | .any => .ok (schema c (some args))

end StaticType

end Schemata
