import Schemata.Session.Basic

/-!
# Operations and requests

What a session can be asked to do, and what it answers. An operation stands by itself. A request is an
operation, a request under changed settings, or several requests in turn.
-/

namespace Schemata

/-- Functions that read a part of a schema. -/
inductive Access where
  | child (accessor : Accessor)
  | inner
  deriving Repr, DecidableEq

/-- Functions that read a part of a type, as a traversal does. -/
inductive TypeAccess where
  | kind
  | inner
  | element
  | value
  | items
  | options
  /-- The properties, and whether there is one with some name. -/
  | properties (key : Value)

/-- A list to append to: the result itself, or what the result holds under a key. -/
inductive AppendTarget where
  | result
  | entry (key : Value)

inductive Operation where
  -- paths
  | readPath (given : Value)
  | writePath (segments : List Path.SegmentDescription)
  | coercePath (path : Path.Description)
  | buildPath (steps : List Path.BuildStep)
  | samePath (a b : Path.Description)
  -- schemas
  | makeSchema (schema : Blueprint)
  | kindOf (schema : Blueprint)
  | isTransparent (kind : String)
  | access (function : Access) (schema : Blueprint)
  | resolve (schema : Blueprint) (path : Path.Description)
  | walk (schema : Blueprint) (segments : List Path.SegmentDescription) (text : String)
  | sameSchema (schema : Blueprint) (a b : Path.Description)
  | absence (schema : Blueprint)
  -- validation
  | compile (schema : Blueprint)
  | parse (schema : Blueprint) (path : Option Path.Description) (value : Value)
  | parseAndAppend (schema : Blueprint) (value : Value) (target : AppendTarget) (item : Value)
  -- static types
  | typeOf (schema : Blueprint)
  | typeAt (type : TypeBlueprint) (path : Path.Description)
  | outputAt (type : TypeBlueprint) (path : Path.Description)
  | outputOf (type : TypeBlueprint)
  | sameOutput (type : TypeBlueprint) (a b : Path.Description)
  | accessType (function : TypeAccess) (type : TypeBlueprint)
  | checkAgreement (schema : Blueprint) (type : Option TypeBlueprint) (path : Path.Description)
  -- settings and logging
  | describeMissing
  | readEnvironment (given : List (Settings.Key × String))
  | makeSettings (given : List (String × Value))
  | assignSettings (given : List (String × Value))
  | configureLogging (level : Option Value)
  | renderRecord (r : Log.Record)
  | emitRecord (r : Log.Record) (width : Option Nat)

inductive Answer where
  | text (s : String)
  | flag (b : Bool)
  | segments (pieces : List Piece)
  /-- The segments of a path and its canonical text. -/
  | reading (pieces : List Piece) (canonical : String)
  /-- Path text and segments. -/
  | coerced (text : String) (pieces : List Piece)
  /-- A built path with its canonical text. -/
  | reference (pieces : List Piece) (canonical : String)
  /-- A text that reading a built path has given. -/
  | pathText (s : String)
  | tree (t : SchemaTree)
  | schema (d : Description)
  | schemas (ds : List Description)
  | shape (entries : List (String × Description))
  | resolved (d : Description) (log : List String)
  | identity (same equal : Bool)
  | absence (kind : Option Kind)
  | validator (v : Validator)
  | value (v : Value)
  | type (t : StaticType)
  | types (ts : List StaticType)
  | properties (entries : List (String × StaticType)) (has : Bool)
  | agreement
  | missing (text : String) (truth single : Bool)
  | settings (s : Settings)
  | logger (l : Logger)
  | rendered (t : Log.StyledText)
  | emitted (handler : Option Log.Handler) (out : String)

inductive Request where
  | operation (op : Operation)
  /-- A request under changed settings, which are restored afterwards. -/
  | within (overrides : List (String × Value)) (request : Request)
  | inTurn (requests : List Request)

/-- The state of the session behind a request. -/
structure Tally where
  /-- How often the getters of the lazy schemas in the definitions have run, by label. -/
  calls : List (String × Nat)
  depth : Nat

inductive Response where
  | answer (a : Answer)
  /-- The settings while the inner request ran, and what it gave. -/
  | within (during : Settings) (result : Except Failure Response)
  | inTurn (results : List (Except Failure Response × Tally))

end Schemata
