import Schemata.Failure
import Schemata.Value.Equality

/-!
# Path arguments

The forms in which a path can be given: as text, as a built reference, as a sequence of segments,
or as some value that is no path at all. `coerce` turns each of them into path text and segments.
-/

namespace Schemata

/-- One member of a sequence that is given as a path. -/
inductive Piece where
  | segment (s : Segment)
  /-- A property step whose key is no text. -/
  | keyed (key : Key)
  /-- Something that is no segment. -/
  | other (v : Value)

namespace Piece

/-- The property step for a key. -/
def ofKey : Key → Piece
  | .value (.str name) => segment (.property name)
  | key => keyed key

def equal : Piece → Piece → Bool
  | segment s, segment t => s == t
  | keyed k, keyed l => k.equal l
  | other v, other w => v.equal w
  | _, _ => false

def shown : Piece → String
  | segment s => s.written Text.quoted
  | keyed key => "Property(name=" ++ key.shown ++ ")"
  | other v => v.shown

/-- Text of the pieces of a path. The first piece has to be text by itself, while later ones are
written behind a point. -/
def writeFrom (first : Bool) : List Piece → Except Failure String
  | [] => .ok ""
  | piece :: rest =>
    match piece with
    | .segment s =>
      match Path.writeSegment first s with
      | .error cause => .error (.unwritablePath cause)
      | .ok text => (writeFrom false rest).map (text ++ ·)
    | .keyed key =>
      match if first then .ok "" else key.written with
      | .error fault => .error (.fault fault)
      | .ok text =>
        match writeFrom false rest with
        | .error failure => .error failure
        | .ok others =>
          if first then .error (.unjoinableKey key.typeName) else .ok ("." ++ text ++ others)
    | .other v => .error (.notASegment v.typeName)

def write (pieces : List Piece) : Except Failure String :=
  writeFrom true pieces

end Piece

/-- A path as it is handed over. -/
inductive PathArgument where
  | text (s : String)
  | reference (pieces : List Piece)
  | list (pieces : List Piece)
  | tuple (pieces : List Piece)
  | other (v : Value)

namespace PathArgument

/-- A value given where a path is expected. -/
def ofValue : Value → PathArgument
  | .str s => text s
  | .list items => list (items.map .other)
  | .tuple items => tuple (items.map .other)
  | v => other v

def equalPieces (ps qs : List Piece) : Bool :=
  ps.length == qs.length && (ps.zip qs).all fun (p, q) => p.equal q

def equal : PathArgument → PathArgument → Bool
  | text s, text t => s == t
  | reference ps, reference qs => equalPieces ps qs
  | list ps, list qs => equalPieces ps qs
  | tuple ps, tuple qs => equalPieces ps qs
  | other v, other w => v.equal w
  | _, _ => false

/-- The pieces between brackets of their collection; a single one in a tuple is followed by a
comma. -/
def shownTuple (pieces : List Piece) : String :=
  match pieces with
  | [piece] => "(" ++ piece.shown ++ ",)"
  | _ => "(" ++ Value.commaSeparated (pieces.map Piece.shown) ++ ")"

def shownReference (pieces : List Piece) : String :=
  "PathRef(segments=" ++ shownTuple pieces ++ ")"

def shown : PathArgument → String
  | text s => Text.quoted s
  | reference pieces => shownReference pieces
  | list pieces => "[" ++ Value.commaSeparated (pieces.map Piece.shown) ++ "]"
  | tuple pieces => shownTuple pieces
  | other v => v.shown

/-- Read path text into pieces. -/
def parse (s : String) : Except Failure (List Segment) :=
  (Path.parse s).mapError (.malformedPath s)

/-- Path text and pieces of a path in any form. -/
def coerce : PathArgument → Except Failure (String × List Piece)
  | text s => (parse s).map fun segments => (s, segments.map .segment)
  | reference pieces => (Piece.write pieces).map (·, pieces)
  | list pieces => (Piece.write pieces).map (·, pieces)
  | tuple pieces => (Piece.write pieces).map (·, pieces)
  | other v =>
    match v.sequence? with
    | some items =>
      let pieces := items.map Piece.other
      (Piece.write pieces).map (·, pieces)
    | none => .error (.notAPath v.typeName)

end PathArgument

end Schemata
