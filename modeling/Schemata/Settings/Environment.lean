import Schemata.Settings.Basic
import Schemata.Text.Upper

/-!
# Settings from the environment

Environment variables hold text. The number and the flag have to be readable as such before any
setting is validated.
-/

namespace Schemata.Settings

/-- The environment variable of a setting. -/
def variableName : Key → String
  | .maxUnwrapDepth => "SCHEMAPATH_MAX_UNWRAP_DEPTH"
  | .logLevel => "SCHEMAPATH_LOG_LEVEL"
  | .richLogging => "SCHEMAPATH_RICH_LOGGING"

/-- The words for a flag, in any case. -/
def flagWords : List (String × Bool) :=
  [("1", true), ("true", true), ("yes", true), ("on", true),
   ("0", false), ("false", false), ("no", false), ("off", false)]

/-- A text without the blanks around it. -/
def trimmed (s : String) : String :=
  String.ofList (Text.trim Text.isBlank s.toList)

/-- The value that the text of a variable stands for. -/
def valueOf (key : Key) (text : String) : Except Failure Value :=
  match key with
  | .maxUnwrapDepth =>
    match Decimal.setting? text with
    | some n => .ok (.int n)
    | none => .error (.variableNotInteger (variableName key) text)
  | .logLevel => .ok (.str (Text.upper (trimmed text)))
  | .richLogging =>
    match flagWords.lookup (String.ofList ((trimmed text).toList.map Char.toLower)) with
    | some b => .ok (.bool b)
    | none => .error (.variableNotFlag (variableName key) text)

/-- Settings from the text of the variables that are set. -/
def ofEnvironment (given : List (Key × String)) : Except Failure Settings := do
  let values ← (Key.all.filterMap fun key => (given.lookup key).map (key, ·)).mapM
    fun (key, text) => (valueOf key text).map (key.name, ·)
  match make values with
  | .ok settings => return settings
  | .error (.invalid issues) => throw (.invalidEnvironment issues)
  | .error failure => throw failure

end Schemata.Settings
