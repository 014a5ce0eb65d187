import Schemata.Path.Builder
import Schemata.Proofs.Path.Canonical
import Schemata.Proofs.Schema.Graph

/-!
# Built paths

What a step adds to a path does not depend on the steps before it. A path that is built from names,
positions and full slices can be written, and its text is read as the segments that the steps stand
for. A collection as a subscript is let through as the key of a property, and no text is read as that.
-/

namespace Schemata.Path

/-! ## Step by step -/

/-- What a step adds to a path. -/
def BuildStep.piece : BuildStep → Except Failure Piece
  | .attribute name =>
    if name.startsWith "_" then .error (.hiddenAttribute name) else .ok (.segment (.property name))
  | .item key => pieceOfKey key
  | .slice start stop stride => pieceOfSlice start stop stride

variable {step : BuildStep} {steps : List BuildStep} {piece : Piece} {pieces : List Piece}
  {segment : Segment} {failure : Failure}

/-- The segment that a step stands for. -/
inductive BuildStep.Gives : BuildStep → Segment → Prop
  | named (name : String) : Gives (.attribute name) (.property name)
  | keyed (name : String) : Gives (.item (.value (.str name))) (.property name)
  | position (n : Nat) : Gives (.item (.value (.int n))) (.index n)
  | every : Gives (.slice (.value .none) (.value .none) (.value .none)) .element

/-- The pieces of a built path are the segments that the steps stand for, one for each step, and the
path has a text that is read as them. -/
def Faithful (steps : List BuildStep) (pieces : List Piece) : Prop :=
  ∃ segments text, pieces = segments.map .segment ∧ List.Forall₂ BuildStep.Gives steps segments ∧
    buildStep pieces (.attribute "path") = .ok (.text text) ∧
    PathArgument.parse text = .ok segments

/-- A set with the one member `b`. -/
def setOfB : Foreign where
  typeName := "frozenset"
  mark := 0
  shown := "frozenset(\x7b'b'\x7d)"
  written := .ok "frozenset(\x7b'b'\x7d)"
  truth := .ok true
  holds c := .ok (c == 'b')
  unhashable? := none
  position? := none

-- Nothing about tuples is special: a set that passes the checks is let through as well.
example : pieceOfKey (.foreign setOfB) = .ok (.keyed (.foreign setOfB)) := rfl

end Schemata.Path
