import Schemata.Decimal.Numeral
import Schemata.Path.Segment

/-!
# Writing paths

The canonical text of a sequence of segments: a point before every property but the first.
-/

namespace Schemata.Path

/-- Why a segment cannot be written. -/
inductive Unwritable where
  /-- A property name that is empty or holds a point or an opening bracket. -/
  | name (name : String)
  /-- A position with more digits than an integer may have. -/
  | hugeIndex
  deriving Repr, DecidableEq

/-- Text of one segment, `first` telling whether nothing stands before it. -/
def writeSegment (first : Bool) : Segment → Except Unwritable String
  | .property name =>
    if Segment.isName name then .ok (if first then name else "." ++ name)
    else .error (.name name)
  | .element => .ok "[]"
  | .index n =>
    if n < Nat.pow 10 Decimal.digitLimit then .ok (Segment.bracket (some n)) else .error .hugeIndex

/-- Text of the segments that follow others, or of a whole path. -/
def writeFrom (first : Bool) : List Segment → Except Unwritable String
  | [] => .ok ""
  | segment :: rest => do
    let text ← writeSegment first segment
    let others ← writeFrom false rest
    return text ++ others

/-- Canonical text of a path. -/
def write (segments : List Segment) : Except Unwritable String :=
  writeFrom true segments

end Schemata.Path
