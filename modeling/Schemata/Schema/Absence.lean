import Schemata.Schema.Scope

/-!
# Absent properties

Whether a property may be absent from an object, decided by the schema of the property: an
optional schema or a default allows it, and the schemas that pass an absent value on to another one
leave the decision to that one.
-/

namespace Schemata.Scope

/-- The kind that lets a property with this schema be absent, if any. `budget` schemas are looked
at; a decision that lies deeper is not found. -/
def absence (scope : Scope) : (budget : Nat) → Schema → Trail NodeId (Option Kind)
  | 0, _ => pure none
  | budget + 1, s =>
    match s with
    | .wrapper _ .optional _ => pure (some .optional)
    | .wrapper _ (.default _) _ => pure (some .default)
    | .wrapper _ .nullable inner => scope.absence budget inner
    | .wrapper _ .readonly inner => scope.absence budget inner
    | .lazy id => do
      let inner ← scope.ask id
      scope.absence budget inner
    | .pipe _ input _ => scope.absence budget input
    | _ => pure none

end Schemata.Scope
