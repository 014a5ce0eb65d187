import Schemata.Session.Activities

/-!
# Performing requests

What each operation does in a session. Schemas and types are made first, then paths, and then the
operation itself runs.
-/

namespace Schemata

namespace Operation

open Session

/-- Perform an operation. -/
def perform : Operation → Activity Answer
  | readPath (.str s) => do
    let segments ← ofExcept (PathArgument.parse s)
    let pieces := segments.map Piece.segment
    return .reading pieces (← ofExcept (Piece.write pieces))
  | readPath v => throw (.notPathText v.typeName)
  | writePath segments => do
    let pieces ← ofExcept (segments.mapM Path.SegmentDescription.piece)
    return .text (← ofExcept (Piece.write pieces))
  | coercePath path => do
    let (text, pieces) ← ofExcept (← makePath path).coerce
    return .coerced text pieces
  | buildPath steps => do
    match ← ofExcept (Path.build steps) with
    | .reference pieces => return .reference pieces (← ofExcept (Piece.write pieces))
    | .text s => return .pathText s
    | .segments pieces => return .segments pieces
  | samePath a b => do return .flag ((← makePath a).equal (← makePath b))
  | .makeSchema schema => do
    let s ← Session.makeSchema schema (.notASchema .node)
    return .tree ((← get).workshop.tree s)
  | kindOf schema => do
    let s ← Session.makeSchema schema (.notASchema .node)
    return .text s.kind.name
  | isTransparent kind =>
    match Kind.ofName? kind with
    | some kind => return .flag kind.isTransparent
    | none => throw (.unknownKind kind)
  | access function schema => do accessPart function (← makeItem schema)
  | resolve schema path => do
    let item ← makeItem schema
    let path ← makePath path
    let s ← schemaAt item path
    return .resolved (← describe s) (resolutionLog path s)
  | walk schema segments text => do
    let item ← makeItem schema
    let pieces ← ofExcept (segments.mapM Path.SegmentDescription.piece)
    return .schema (← describe (← walkFrom item pieces text))
  | sameSchema schema a b => do
    let item ← makeItem schema
    let s ← schemaAt item (← makePath a)
    let t ← schemaAt item (← makePath b)
    return .identity (s.id == t.id) (s.id == t.id)
  | .absence schema => do return .absence (← absenceOf (← makeItem schema))
  | compile schema => do return .validator (← compileItem (← makeItem schema))
  | parse schema path v => do
    let item ← makeItem schema
    let item ← match path with
      | none => pure item
      | some path => .schema <$> (do schemaAt item (← makePath path))
    return .value (← parseWith item v)
  | parseAndAppend schema v target item => do
    let result ← parseWith (← makeItem schema) v
    return .value (← ofExcept (appendTo target item result))
  | typeOf schema => do return .type (← deriveType (← makeItem schema))
  | typeAt type path => do
    let t ← makeType type
    return .type (← typeAtPath t (← makePath path))
  | outputAt type path => do
    let t ← makeType type
    return .type (← outputOfType (← typeAtPath t (← makePath path)))
  | outputOf type => do return .type (← outputOfType (← makeType type))
  | sameOutput type a b => do
    let t ← makeType type
    let s ← outputOfType (← typeAtPath t (← makePath a))
    let u ← outputOfType (← typeAtPath t (← makePath b))
    return .flag (sameObject s u)
  | accessType function type => do accessTypePart function (← makeType type)
  | checkAgreement schema type path => do
    let t ← match type with
      | none => pure none
      | some type => some <$> makeType type
    let item ← makeItem schema
    agree item t (← makePath path)
    return .agreement
  | describeMissing => return .missing Value.missing.shown (!Value.missing.isBlank) true
  | readEnvironment given => do
    return .settings (← ofExcept (Settings.ofEnvironment given))
  | makeSettings given => do
    return .settings (← ofExcept (Settings.make (Settings.byName given)))
  | assignSettings given => do
    assignAll given
    return .settings (← get).settings
  | .configureLogging level => do return .logger (← configureLogger level)
  | renderRecord r => do return .rendered (← ofExcept r.render)
  | emitRecord r width => do
    let logger ← configureLogger none
    match logger.handlers with
    | [] => return .emitted none ""
    | handler :: _ =>
      return .emitted (some handler) (handler.emit (width.getD Log.defaultWidth) r)

end Operation

namespace Request

open Session

mutual

/-- Perform a request. -/
def perform : Request → Activity Response
  | operation op => do return .answer (← op.perform)
  | within overrides request =>
    withSettings (Settings.byName overrides) do
      let during := (← get).settings
      let result ← attempt (perform request)
      return .within during result
  | inTurn requests => do return .inTurn (← performAll requests)

/-- Perform requests in order, each whether or not those before it have failed. -/
def performAll : List Request → Activity (List (Except Failure Response × Tally))
  | [] => return []
  | request :: rest => do
    let result ← attempt (perform request)
    let tally ← tally
    let rest ← performAll rest
    return (result, tally) :: rest

end

end Request

/-- Perform a request in a new session with definitions and declared types. -/
def Session.respond (defs : List (String × Blueprint)) (types : List (String × Declaration))
    (request : Request) : Except Failure Response :=
  let activity : Activity Response := do
    prepare defs types
    request.perform
  (activity.exec initial).1

end Schemata
