import Schemata.Path.Builder

/-!
# Descriptions of paths

The ways in which a caller writes a path down: as text, segment by segment, or step by step.
-/

namespace Schemata.Path

inductive SegmentDescription where
  | property (name : String)
  | element
  | index (position : Value)
  | value (v : Value)

inductive Description where
  | text (s : String)
  | list (segments : List SegmentDescription)
  | tuple (segments : List SegmentDescription)
  | built (steps : List BuildStep)
  | value (v : Value)

def SegmentDescription.piece : SegmentDescription → Except Failure Piece
  | .property name => .ok (.segment (.property name))
  | .element => .ok (.segment .element)
  | .index position => (indexOfValue position).map .segment
  | .value v => .ok (.other v)

/-- Make the path. -/
def Description.make : Description → Except Failure PathArgument
  | .text s => .ok (.text s)
  | .list segments => (segments.mapM SegmentDescription.piece).map .list
  | .tuple segments => (segments.mapM SegmentDescription.piece).map .tuple
  | .built steps => (build steps).map Built.toArgument
  | .value v => .ok (.ofValue v)

end Schemata.Path
