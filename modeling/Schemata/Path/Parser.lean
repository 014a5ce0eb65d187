import Schemata.Decimal.Numeral
import Schemata.Path.Segment

/-!
# Reading paths

Path text such as `users[].name` reads from left to right: a property, any element, a property.
A bracket holds nothing or a position in decimal digits. A name runs up to the next point or
opening bracket; a point goes before it unless it opens the path or follows a bracket. A single
point before an opening bracket is allowed at the very start.
-/

namespace Schemata.Path

/-- What is wrong with path text, and the position where it shows. -/
inductive Defect where
  | emptyName (position : Nat)
  | unclosedBracket (position : Nat)
  | invalidIndex (content : String) (position : Nat)
  /-- A position with more digits than an integer may have. -/
  | hugeIndex (digits : Nat)
  deriving Repr, DecidableEq

/-- The segment for a bracket at `position` around `content`. -/
def bracketSegment (content : List Char) (position : Nat) : Except Defect Segment :=
  if content.isEmpty then .ok .element
  else if content.all Char.isDigit then
    if Decimal.digitLimit < content.length then .error (.hugeIndex content.length)
    else .ok (.index (Decimal.natOfDigits content))
  else .error (.invalidIndex (String.ofList content) position)

/-- The run of characters up to the next end of a name. -/
def nameRun (cs : List Char) : List Char :=
  cs.takeWhile fun c => !Segment.endsName c

/-- The text of a bracket up to its end. -/
def bracketRun (cs : List Char) : List Char :=
  cs.takeWhile (· != ']')

/-- Read the segments of `cs`, the part of a path that begins at `position`. -/
def segmentsFrom (position : Nat) : List Char → Except Defect (List Segment)
  | [] => .ok []
  | '[' :: rest =>
    let content := bracketRun rest
    if content.length < rest.length then do
      let segment ← bracketSegment content position
      let others ← segmentsFrom (position + content.length + 2) (rest.drop (content.length + 1))
      return segment :: others
    else .error (.unclosedBracket position)
  | c :: rest =>
    if c == '.' then
      let name := nameRun rest
      if name.isEmpty then .error (.emptyName (position + 1))
      else do
        let others ← segmentsFrom (position + 1 + name.length) (rest.drop name.length)
        return .property (String.ofList name) :: others
    else do
      let name := nameRun rest
      let others ← segmentsFrom (position + 1 + name.length) (rest.drop name.length)
      return .property (String.ofList (c :: name)) :: others
termination_by cs => cs.length
decreasing_by all_goals simp only [List.length_drop, List.length_cons]; omega

/-- Read path text. -/
def parse (text : String) : Except Defect (List Segment) :=
  match text.toList with
  | '.' :: '[' :: rest => segmentsFrom 1 ('[' :: rest)
  | cs => segmentsFrom 0 cs

end Schemata.Path
