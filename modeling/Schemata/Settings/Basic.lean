import Schemata.Log.Level
import Schemata.Validation.Leaf

/-!
# Settings

The settings of a session. Every value is validated before it becomes a setting, leniently for the
number and the flag.
-/

namespace Schemata

structure Settings where
  /-- How many wrappers in a row a traversal steps into. -/
  maxUnwrapDepth : Nat
  logLevel : Level
  richLogging : Bool
  deriving Repr, DecidableEq

namespace Settings

def initial : Settings :=
  { maxUnwrapDepth := 64, logLevel := .warning, richLogging := true }

/-- The settings. -/
inductive Key where
  | maxUnwrapDepth
  | logLevel
  | richLogging
  deriving Repr, DecidableEq

namespace Key

def all : List Key :=
  [maxUnwrapDepth, logLevel, richLogging]

def name : Key → String
  | maxUnwrapDepth => "max_unwrap_depth"
  | logLevel => "log_level"
  | richLogging => "rich_logging"

def ofName? (s : String) : Option Key :=
  all.find? (·.name == s)

end Key

-- ---------------------------------------------------------------------------
-- Validation of single settings
-- ---------------------------------------------------------------------------

/-- A positive number of wrappers. -/
def depthOf (v : Value) : Verdict Nat :=
  (Leaf.checkInteger false v .initial).andThen fun result s =>
    match result with
    | .int n => if 0 < n then .accepted n.toNat s else .refuse (.notGreater 0) v
    | _ => .refuse .integerType v

def levelOf (v : Value) : Verdict Level :=
  match v.asString?.bind Level.ofName? with
  | some level => .accepted level .initial
  | none => .refuse (.unexpected (Level.all.map fun level => Text.quoted level.name)) v

def flagOf (v : Value) : Verdict Bool :=
  (Leaf.checkBoolean false v .initial).andThen fun result s =>
    match result with
    | .bool b => .accepted b s
    | _ => .refuse .booleanType v

/-- Change one setting to a value, if it is valid. -/
def set (settings : Settings) (key : Key) (v : Value) : Verdict Settings :=
  let checked := match key with
    | .maxUnwrapDepth => (depthOf v).map fun n => { settings with maxUnwrapDepth := n }
    | .logLevel => (levelOf v).map fun level => { settings with logLevel := level }
    | .richLogging => (flagOf v).map fun b => { settings with richLogging := b }
  checked.under (.key key.name)

-- ---------------------------------------------------------------------------
-- Making and changing settings
-- ---------------------------------------------------------------------------

/-- Assign to a setting by its name. -/
def assign (settings : Settings) (name : String) (v : Value) : Except Failure Settings :=
  match Key.ofName? name with
  | some key => (settings.set key v).toExcept
  | none => .error (.invalid [(Issue.here (.noSuchAttribute name) v).under (.key name)])

/-- Set what `given` holds for one of `keys`, and keep what it does not hold. -/
def setAll (given : List (String × Value)) (settings : Settings) : List Key → Verdict Settings
  | [] => .accepted settings .initial
  | key :: rest =>
    match given.lookup key.name with
    | none => setAll given settings rest
    | some v =>
      match settings.set key v with
      | .accepted settings _ => setAll given settings rest
      | .refused issues =>
        match setAll given settings rest with
        | .accepted _ _ => .refused issues
        | .refused more => .refused (issues ++ more)
        | .failed failure => .failed failure
      | .failed failure => .failed failure

/-- The issues with values whose names are no settings. -/
def unknown (given : List (String × Value)) : List Issue :=
  (given.filter fun entry => (Key.ofName? entry.1).isNone).map fun (name, v) =>
    (Issue.here .extraForbidden v).under (.key name)

/-- Make settings from values, with all issues in case of any. -/
def make (given : List (String × Value)) : Except Failure Settings :=
  match setAll given initial Key.all, unknown given with
  | .accepted settings _, [] => .ok settings
  | .accepted _ _, issues => .error (.invalid issues)
  | .refused issues, more => .error (.invalid (issues ++ more))
  | .failed failure, _ => .error failure

/-- Values given by name, where a later one takes the place of an earlier one. -/
def byName (given : List (String × Value)) : List (String × Value) :=
  given.foldl (fun kept (name, v) =>
    if kept.any (·.1 == name) then kept.map fun entry => if entry.1 == name then (name, v) else entry
    else kept ++ [(name, v)]) []

/-- The values of all settings. -/
def dump (settings : Settings) : List (String × Value) :=
  [(Key.maxUnwrapDepth.name, .int settings.maxUnwrapDepth),
   (Key.logLevel.name, .str settings.logLevel.name),
   (Key.richLogging.name, .bool settings.richLogging)]

end Settings

end Schemata
