import Schemata.Decimal.Shortest
import Schemata.Text.Quoted
import Schemata.Value.Basic

/-!
# Text of values

The text of a value as messages show it. A tuple of one element keeps a comma behind it.
-/

namespace Schemata.Value

/-- The elements of a collection with commas between them. -/
def commaSeparated (parts : List String) : String :=
  ", ".intercalate parts

mutual

/-- A value as it would be written down. -/
def shown : Value → String
  | none => "None"
  | bool b => if b then "True" else "False"
  | int n => toString n
  | float f => Decimal.text f
  | str s => Text.quoted s
  | bytes bs => Text.quotedBytes bs
  | list items => "[" ++ commaSeparated (shownAll items) ++ "]"
  | tuple [v] => "(" ++ shown v ++ ",)"
  | tuple items => "(" ++ commaSeparated (shownAll items) ++ ")"
  | dict entries => "\x7b" ++ commaSeparated (shownEntries entries) ++ "\x7d"
  | missing => "schemapath.MISSING"

def shownAll : List Value → List String
  | [] => []
  | v :: rest => shown v :: shownAll rest

def shownEntries : List (Value × Value) → List String
  | [] => []
  | (k, v) :: rest => (shown k ++ ": " ++ shown v) :: shownEntries rest

end

/-- A value as part of a sentence: text stands for itself. -/
def plain : Value → String
  | str s => s
  | v => shown v

end Schemata.Value
