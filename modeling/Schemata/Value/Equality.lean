import Schemata.Decimal.Binary
import Schemata.Value.Basic

/-!
# Equality of values

Numbers of different types are equal when they stand for the same number, so `1`, `1.0` and the
true boolean are all equal, and not-a-number differs from itself. Lists, tuples and dictionaries
are compared element by element, and a list never equals a tuple.
-/

namespace Schemata.Value

open Decimal

/-- The integer that a value is, booleans counting as zero and one. -/
def asInt? : Value → Option Int
  | bool b => some (if b then 1 else 0)
  | int n => some n
  | _ => Option.none

/-- Equality of values that hold no other values. -/
def equalAtoms : Value → Value → Bool
  | none, none => true
  | missing, missing => true
  | str s, str t => s == t
  | bytes bs, bytes cs => bs == cs
  | float f, float g => f == g
  | float f, v => v.asInt?.any fun n => (Binary.ofFloat f).toInt? == some n
  | v, float f => v.asInt?.any fun n => (Binary.ofFloat f).toInt? == some n
  | v, w =>
    match v.asInt?, w.asInt? with
    | some m, some n => m == n
    | _, _ => false

mutual

/-- Whether two values are equal. -/
def equal : Value → Value → Bool
  | list xs, list ys => equalAll xs ys
  | tuple xs, tuple ys => equalAll xs ys
  | dict xs, dict ys => xs.length == ys.length && equalEntries xs ys
  | list _, _ => false
  | tuple _, _ => false
  | dict _, _ => false
  | v, w => equalAtoms v w

/-- Whether two lists of values are equal position by position. -/
def equalAll : List Value → List Value → Bool
  | [], [] => true
  | x :: xs, y :: ys => equal x y && equalAll xs ys
  | _, _ => false

/-- Whether every entry of the first dictionary has an equal entry in the second. -/
def equalEntries : List (Value × Value) → List (Value × Value) → Bool
  | [], _ => true
  | (k, v) :: rest, ys => ys.any (fun (k', v') => equal k k' && equal v v') && equalEntries rest ys

end

/-- Whether two values have the same type and are equal. -/
def equalTyped (v w : Value) : Bool :=
  v.typeName == w.typeName && v.equal w

end Schemata.Value

namespace Schemata

/-- Set the entry for `key`. A key that is present keeps its place and its own form. -/
def setEntry (key value : Value) : List (Value × Value) → List (Value × Value)
  | [] => [(key, value)]
  | (k, v) :: rest => if k.equal key then (k, value) :: rest else (k, v) :: setEntry key value rest

/-- Entries given one after the other, where later ones replace earlier ones. -/
def entriesOf (given : List (Value × Value)) : List (Value × Value) :=
  given.foldl (fun entries (key, value) => setEntry key value entries) []

/-- The value under the text `name`. -/
def entry? (name : String) (entries : List (Value × Value)) : Option Value :=
  (entries.find? fun (key, _) => key.equal (.str name)).map (·.2)

end Schemata
