import Schemata.Path.Argument

/-!
# Building paths

A path can be built step by step: an attribute names a property, a subscript names a property or
a position, and a full slice stands for any element.
-/

namespace Schemata.Path

inductive BuildStep where
  | attribute (name : String)
  | item (key : Key)
  | slice (start stop step : Key)

/-- The properties that read a built path instead of extending it. -/
inductive Built where
  | reference (pieces : List Piece)
  | text (s : String)
  | segments (pieces : List Piece)

/-- The piece for a key that stands for a property. The checks are meant for text, but any key that
passes them is taken as it is. -/
def propertyOfKey (key : Key) : Except Failure Piece := do
  unless ← key.truth.mapError .fault do throw .emptyKey
  if ← (key.holds '.').mapError .fault then throw .punctuatedKey
  if ← (key.holds '[').mapError .fault then throw .punctuatedKey
  return .ofKey key

/-- The piece that a subscript adds. -/
def pieceOfKey : Key → Except Failure Piece
  | .value (.bool _) => .error .booleanKey
  | .value (.int n) => if n < 0 then .error .negativeIndex else .ok (.segment (.index n.toNat))
  | key => propertyOfKey key

/-- The piece that a slice adds: only the full slice is a path step. -/
def pieceOfSlice : (start stop step : Key) → Except Failure Piece
  | .value .none, .value .none, .value .none => .ok (.segment .element)
  | _, _, _ => .error .partialSlice

/-- Apply one step to a path built from `pieces`. -/
def buildStep (pieces : List Piece) : BuildStep → Except Failure Built
  | .attribute "path" => (Piece.write pieces).map .text
  | .attribute "segments" => .ok (.segments pieces)
  | .attribute name =>
    if name.startsWith "_" then .error (.hiddenAttribute name)
    else .ok (.reference (pieces ++ [.segment (.property name)]))
  | .item key => (pieceOfKey key).map fun piece => .reference (pieces ++ [piece])
  | .slice start stop step =>
    (pieceOfSlice start stop step).map fun piece => .reference (pieces ++ [piece])

/-- The member at a position, which counts from the end if it is negative. -/
def memberAt? {α : Type} (members : List α) (n : Int) : Option α :=
  if 0 ≤ n then members[n.toNat]?
  else if n.natAbs ≤ members.length then members[members.length - n.natAbs]?
  else none

/-- The member that a subscript selects. -/
def select {α : Type} (container : String) (members : List α) (key : Key) : Except Failure α :=
  match key.position? with
  | none => .error (.notAPosition container key.typeName)
  | some n =>
    match memberAt? members n with
    | none => .error (.positionOutside container)
    | some member => .ok member

/-- Apply one step to what earlier steps have built. -/
def Built.step : Built → BuildStep → Except Failure Built
  | .reference pieces, step => buildStep pieces step
  | .text _, .attribute name => .error (.noAttribute "str" name)
  | .text s, .item key => (select "string" s.toList key).map fun c => .text (String.singleton c)
  | .segments _, .attribute name => .error (.noAttribute "tuple" name)
  | .segments pieces, .item key => (select "tuple" pieces key).map fun piece => .segments [piece]
  | built, .slice start stop step => (pieceOfSlice start stop step).map fun _ => built

/-- Apply steps in order, beginning with the empty path. -/
def build (steps : List BuildStep) : Except Failure Built :=
  steps.foldlM Built.step (.reference [])

def Built.toArgument : Built → PathArgument
  | .reference pieces => .reference pieces
  | .text s => .text s
  | .segments pieces => .tuple pieces

/-- Make the segment for a position given as a value. -/
def indexOfValue : Value → Except Failure Segment
  | .int n => if n < 0 then .error .negativeIndex else .ok (.index n.toNat)
  | v => .error (.indexNotInteger v.typeName)

end Schemata.Path
