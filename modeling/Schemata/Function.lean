import Schemata.Text.Upper
import Schemata.Value.Printer

/-!
# Functions

The functions that a transform can apply to a value. A function is its name and what it does, so that
a transform can hold any of them; some have a name by which a request asks for them.
-/

namespace Schemata

/-- How code that is not part of the library refuses what it is given. Validation reports the first
two and passes on all others. -/
inductive Fault where
  | value (text : String)
  | assertion (text : String)
  /-- A failure of another class, which is none of those that paths cause. -/
  | other (className text : String)
  deriving Repr, DecidableEq

namespace Fault

def text : Fault → String
  | value text => text
  | assertion text => text
  | other _ text => text

/-- What is given is of the wrong type. -/
def wrongType (text : String) : Fault :=
  .other "TypeError" text

end Fault

structure Function where
  name : String
  apply : Value → Except Fault Value

instance : Inhabited Function :=
  ⟨"", .ok⟩

namespace Function

/-- Number of characters of a text or of elements of a collection. -/
def lengthOf? : Value → Option Nat
  | .str s => some s.length
  | .bytes bs => some bs.length
  | .list items => some items.length
  | .tuple items => some items.length
  | .dict entries => some entries.length
  | _ => none

def length : Function where
  name := "len"
  apply v :=
    match lengthOf? v with
    | some n => .ok (.int n)
    | none => .error (.wrongType ("object of type '" ++ v.typeName ++ "' has no len()"))

def upper : Function where
  name := "upper"
  apply
    | .str s => .ok (.str (Text.upper s))
    | v =>
      .error (.wrongType
        ("descriptor 'upper' for 'str' objects doesn't apply to a '" ++ v.typeName ++ "' object"))

def identity : Function where
  name := "identity"
  apply := .ok

def negate : Function where
  name := "negate"
  apply
    | .bool b => .ok (.int (if b then -1 else 0))
    | .int n => .ok (.int (-n))
    | .float f => .ok (.float (-f))
    | v => .error (.wrongType ("bad operand type for unary -: '" ++ v.typeName ++ "'"))

def pair : Function where
  name := "pair"
  apply v := .ok (.tuple [v, v])

/-- A function that refuses every value in the same way. -/
def failing (name : String) (fault : Fault) : Function where
  name := name
  apply _ := .error fault

/-- The functions that can be asked for by name. -/
def named : List Function :=
  [length, upper, identity, negate, pair,
    failing "boom_value" (.value "boom value"),
    failing "boom_assert" (.assertion "boom assert"),
    failing "boom_type" (.wrongType "boom type")]

def ofName? (s : String) : Option Function :=
  named.find? (·.name == s)

end Function

end Schemata
