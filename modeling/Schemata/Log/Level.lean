import Schemata.Failure

/-!
# Log levels

The five levels that settings name, and the numbers and names that log records carry.
-/

namespace Schemata

inductive Level where
  | debug
  | info
  | warning
  | error
  | critical
  deriving Repr, DecidableEq

namespace Level

def all : List Level :=
  [debug, info, warning, error, critical]

def name : Level → String
  | debug => "DEBUG"
  | info => "INFO"
  | warning => "WARNING"
  | error => "ERROR"
  | critical => "CRITICAL"

def number : Level → Int
  | debug => 10
  | info => 20
  | warning => 30
  | error => 40
  | critical => 50

def ofName? (s : String) : Option Level :=
  all.find? (·.name == s)

/-- Other names of levels. -/
def aliases : List (String × Int) :=
  [("NOTSET", 0), ("WARN", 30), ("FATAL", 50)]

/-- The number of any named level. -/
def numberOf? (s : String) : Option Int :=
  ((ofName? s).map number).or (aliases.lookup s)

/-- The name that a record with a level carries. -/
def nameOf (n : Int) : String :=
  if n = 0 then "NOTSET"
  else
    match all.find? (·.number == n) with
    | some level => level.name
    | none => "Level " ++ toString n

/-- The level that a value stands for: a number itself, or the number of a name. -/
def ofValue : Value → Except Failure Value
  | .int n => .ok (.int n)
  | .bool b => .ok (.bool b)
  | .str s =>
    match numberOf? s with
    | some n => .ok (.int n)
    | none => .error (.unknownLevel s)
  | v => .error (.notALevel v)

end Level

end Schemata
