import Schemata.Path.Key
import Schemata.Path.Parser
import Schemata.Path.Printer
import Schemata.Schema.Class
import Schemata.Validation.Issue

/-!
# Failures

Everything that can go wrong, as causes. `Failure.message` holds the wording and
`Failure.category` sorts the causes by what a caller would catch.
-/

namespace Schemata

/-- Why a segment cannot be applied to the schema that a traversal has reached. -/
inductive Obstacle where
  | unknownProperty (name : String)
  | notAnObject (name : String) (kind : Kind)
  /-- An element step when there is no index, otherwise an index step. -/
  | notIndexable (index : Option Nat) (kind : Kind)
  | indexOutOfBounds (index length : Nat) (kind : Kind)
  | unwrapLimit (limit : Nat)
  /-- A property key that is no text. -/
  | unknownKey (key : Key)
  | keyOnNonObject (key : Key) (kind : Kind)

namespace Obstacle

/-- The bracket of an indexing step. -/
def accessor (index : Option Nat) : String :=
  Segment.bracket index

/-- The kinds that an indexing step applies to. -/
def indexedKinds : Option Nat → String
  | none => "array/record"
  | some _ => "tuple/union"

/-- One word for the sort of obstacle. -/
def reason : Obstacle → String
  | unknownProperty _ | unknownKey _ => "unknown_property"
  | notAnObject .. | keyOnNonObject .. => "not_an_object"
  | notIndexable .. => "not_indexable"
  | indexOutOfBounds .. => "index_out_of_bounds"
  | unwrapLimit _ => "unwrap_limit"

def unknownText (name : String) : String :=
  "property " ++ name ++ " does not exist on object schema"

def nonObjectText (name : String) (kind : Kind) : String :=
  "cannot access property " ++ name ++ " on non-object schema (got " ++ kind.name ++ ")"

def detail : Obstacle → String
  | unknownProperty name => unknownText (Text.quoted name)
  | unknownKey key => unknownText key.shown
  | notAnObject name kind => nonObjectText (Text.quoted name) kind
  | keyOnNonObject key kind => nonObjectText key.shown kind
  | notIndexable index kind =>
    "cannot use " ++ accessor index ++ " on non-" ++ indexedKinds index ++ " schema (got "
      ++ kind.name ++ ")"
  | indexOutOfBounds index length kind =>
    kind.name ++ " index " ++ toString index ++ " out of bounds (length " ++ toString length ++ ")"
  | unwrapLimit limit => "wrapper chain exceeds max unwrap depth (" ++ toString limit ++ ")"

end Obstacle

/-- Functions that read one child, or the children, of a schema. -/
inductive Accessor where
  | shape
  | element
  | value
  | items
  | options
  deriving Repr, DecidableEq

namespace Accessor

def name : Accessor → String
  | shape => "shape_of"
  | element => "element_of"
  | value => "value_of"
  | items => "items_of"
  | options => "options_of"

/-- The only class that an accessor applies to. -/
def owner : Accessor → SchemaClass
  | shape => .object
  | element => .array
  | value => .record
  | items => .tuple
  | options => .union

end Accessor

/-- Where a schema was expected and something else was given. -/
inductive SchemaRole where
  /-- A child handed to the constructor of a class. -/
  | child (owner : SchemaClass)
  /-- What the getter of a lazy schema returned. -/
  | target
  | node
  | resolved
  | derived
  | wrapper
  | accessed (accessor : Accessor)
  deriving Repr, DecidableEq

/-- What a caller would catch a failure as. -/
inductive Category where
  | malformedPath
  | resolution
  | invalid
  | wrongType
  | wrongValue
  | noAttribute
  | assertion
  | unsupported
  | endless
  | overflow
  | outside
  /-- What is raised by code that is not part of the library. -/
  | other (className : String)
  deriving Repr, DecidableEq

inductive Failure where
  -- paths
  | malformedPath (path : String) (defect : Path.Defect)
  | unwritablePath (cause : Path.Unwritable)
  | notASegment (given : String)
  | notAPath (given : String)
  | notPathText (given : String)
  | indexNotInteger (given : String)
  | negativeIndex
  | booleanKey
  | partialSlice
  | emptyKey
  | punctuatedKey
  | unjoinableKey (given : String)
  | hiddenAttribute (name : String)
  | notAPosition (container given : String)
  | positionOutside (container : String)
  -- traversal
  | resolution (path : String) (obstacle : Obstacle)
  -- schemas
  | notASchema (role : SchemaRole) (given : String)
  | keyNotText (given : String)
  | unhashable (given : String)
  | notIterable (given : String)
  | noValues
  | noOptions
  | noAttribute (given name : String)
  | unknownKind (name : String)
  | getterFailed (text : String)
  | endlessLazy (limit : Nat)
  | notValidating (given : String)
  -- validation
  | invalid (issues : List Issue)
  | fault (fault : Fault)
  -- static types
  | wrongArity (schemaClass : SchemaClass) (actual : Nat)
  | endlessType
  -- settings and logging
  | invalidEnvironment (issues : List Issue)
  | variableNotInteger (name text : String)
  | variableNotFlag (name text : String)
  | unknownLevel (name : String)
  | notALevel (level : Value)
  | missingArguments
  | extraArguments
  | badFormat (text : String)
  | notFormattable (text : String)
  | tooLargeToFormat (text : String)
  -- agreement
  | disagreement (text : String)

namespace Failure

def schemaRoleMessage (role : SchemaRole) (given : String) : String :=
  match role with
  | .child owner => owner.name ++ " expects Schema children, got " ++ given
  | .target => "LazySchema getter expects Schema children, got " ++ given
  | .node => "expected a Schema node, got " ++ given
  | .resolved => "resolve() expects a Schema, got " ++ given
  | .derived => "schema_type_of() expects a Schema, got " ++ given
  | .wrapper => "inner_of() requires a wrapper schema, got " ++ given
  | .accessed accessor =>
    accessor.name ++ "() requires " ++ accessor.owner.name ++ ", got " ++ given

def digitsMessage (value : String) : String :=
  "Exceeds the limit (" ++ toString Decimal.digitLimit
    ++ " digits) for integer string conversion" ++ value
    ++ "; use sys.set_int_max_str_digits() to increase the limit"

/-- A position, if a failure of path text has one. -/
def position? : Path.Defect → Option Nat
  | .emptyName position => some position
  | .unclosedBracket position => some position
  | .invalidIndex _ position => some position
  | .hugeIndex _ => none

def defectMessage (path : String) (defect : Path.Defect) : String :=
  let invalid (what : String) (position : Nat) :=
    "invalid path " ++ Text.quoted path ++ ": " ++ what ++ " at position " ++ toString position
  match defect with
  | .emptyName position => invalid "empty property name" position
  | .unclosedBracket position => invalid "unclosed bracket" position
  | .invalidIndex content position =>
    invalid ("invalid index " ++ Text.quoted content) position
  | .hugeIndex digits => digitsMessage (": value has " ++ toString digits ++ " digits")

def unwritableMessage : Path.Unwritable → String
  | .name name =>
    "invalid path " ++ Text.quoted name
      ++ ": property names must be non-empty and may not contain '.' or '['"
  | .hugeIndex => digitsMessage ""

def arityMessage (c : SchemaClass) (actual : Nat) : String :=
  let expected := match c.arity with
    | .exactly n => n
    | .any => actual
  let about := "arguments for <class '" ++ c.path ++ "'>; actual " ++ toString actual
  if expected < actual then "Too many " ++ about ++ ", expected " ++ toString expected
  else "Too few " ++ about ++ ", expected at least " ++ toString expected

def message : Failure → String
  | malformedPath path defect => defectMessage path defect
  | unwritablePath cause => unwritableMessage cause
  | notASegment given => "expected a path segment, got " ++ given
  | notAPath given =>
    "path must be a string, PathRef or sequence of segments, got " ++ given
  | notPathText given => "path must be a string, got " ++ given
  | indexNotInteger given => "Index requires an int, got " ++ given
  | negativeIndex => "Negative indices are not supported in schema paths"
  | booleanKey => "Boolean keys are not supported in schema paths"
  | partialSlice => "Only the full slice [:] is supported in schema paths"
  | emptyKey => "String keys in schema paths cannot be empty"
  | punctuatedKey => "String keys in schema paths may not contain '.' or '['"
  | unjoinableKey given => "sequence item 0: expected str instance, " ++ given ++ " found"
  | hiddenAttribute name => name
  | notAPosition container given =>
    if container == "string" then "string indices must be integers, not '" ++ given ++ "'"
    else container ++ " indices must be integers or slices, not " ++ given
  | positionOutside container => container ++ " index out of range"
  | resolution path obstacle => "invalid path " ++ Text.quoted path ++ ": " ++ obstacle.detail
  | notASchema role given => schemaRoleMessage role given
  | keyNotText given => "ObjectSchema keys must be strings, got <class '" ++ given ++ "'>"
  | unhashable given => "unhashable type: '" ++ given ++ "'"
  | notIterable given => "'" ++ given ++ "' object is not iterable"
  | noValues => "EnumSchema requires at least one value"
  | noOptions => "UnionSchema requires at least one option"
  | noAttribute given name => "'" ++ given ++ "' object has no attribute '" ++ name ++ "'"
  | unknownKind name => Text.quoted name ++ " is not a valid SchemaKind"
  | getterFailed text => text
  | endlessLazy limit =>
    "lazy schema does not resolve within " ++ toString limit ++ " steps"
  | notValidating given => given ++ " does not define validation"
  | invalid _ => ""
  | fault f => f.text
  | wrongArity c actual => arityMessage c actual
  | endlessType => "maximum recursion depth exceeded"
  | invalidEnvironment _ => "invalid schemapath environment configuration"
  | variableNotInteger name text => name ++ " must be an integer, got " ++ Text.quoted text
  | variableNotFlag name text => name ++ " must be a boolean flag, got " ++ Text.quoted text
  | unknownLevel name => "Unknown level: " ++ Text.quoted name
  | notALevel level => "Level not an integer or a valid string: " ++ level.shown
  | missingArguments => "not enough arguments for format string"
  | extraArguments => "not all arguments converted during string formatting"
  | badFormat text => text
  | notFormattable text => text
  | tooLargeToFormat text => text
  | disagreement text => text

def category : Failure → Category
  | malformedPath _ (.hugeIndex _) => .wrongValue
  | malformedPath .. => .malformedPath
  | unwritablePath (.name _) => .malformedPath
  | unwritablePath .hugeIndex => .wrongValue
  | resolution .. => .resolution
  | invalid _ => .invalid
  | notASegment _ | notAPath _ | notPathText _ | indexNotInteger _ | booleanKey => .wrongType
  | unjoinableKey _ | notAPosition .. => .wrongType
  | positionOutside _ => .outside
  | negativeIndex | partialSlice | emptyKey | punctuatedKey => .wrongValue
  | hiddenAttribute _ | noAttribute .. => .noAttribute
  | notASchema .. | keyNotText _ | unhashable _ | notIterable _ => .wrongType
  | noValues | noOptions | unknownKind _ | getterFailed _ | endlessLazy _ => .wrongValue
  | notValidating _ => .unsupported
  | fault (.value _) => .wrongValue
  | fault (.assertion _) => .assertion
  | fault (.other className _) => .other className
  | wrongArity .. => .wrongType
  | endlessType => .endless
  | invalidEnvironment _ | variableNotInteger .. | variableNotFlag .. => .wrongValue
  | unknownLevel _ | badFormat _ => .wrongValue
  | notALevel _ | missingArguments | extraArguments | notFormattable _ => .wrongType
  | tooLargeToFormat _ => .overflow
  | disagreement _ => .assertion

/-- The failures that a path which does not fit a schema can cause. A caller that treats such a
path as leading nowhere catches these and no others. -/
def isPathFailure (f : Failure) : Bool :=
  match f.category with
  | .malformedPath | .resolution => true
  | _ => false

end Failure

end Schemata
