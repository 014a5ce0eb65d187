import Schemata.Function
import Schemata.Value.Equality

/-!
# Keys

What can stand in a subscript of a path: a value, or an object of a class that `Value` leaves out,
such as a set or a range. A path asks a key only for its truth, for what it holds and for its text, and
an object may refuse to answer.
-/

namespace Schemata

/-- An object of a class of its own, as far as paths ask about it. Its class is no text, integer or
slice, and no value equals it. -/
structure Foreign where
  typeName : String
  /-- Objects with the same mark are equal. -/
  mark : Nat
  /-- The object as it would be written down. -/
  shown : String
  /-- The object as part of a text. -/
  written : Except Fault String
  truth : Except Fault Bool
  /-- Whether a text of one character is found in the object. -/
  holds : Char → Except Fault Bool
  /-- Type name of the part that cannot be a dictionary key. -/
  unhashable? : Option String
  /-- The integer that the object stands for as a position. -/
  position? : Option Int

inductive Key where
  | value (v : Value)
  | foreign (o : Foreign)

/-- Whether a value counts as empty where a name is expected. -/
def Value.isBlank : Value → Bool
  | none => true
  | missing => true
  | bool b => !b
  | int n => n == 0
  | float f => f == 0.0
  | str s => s.isEmpty
  | bytes bs => bs.isEmpty
  | list items => items.isEmpty
  | tuple items => items.isEmpty
  | dict entries => entries.isEmpty

namespace Key

def typeName : Key → String
  | value v => v.typeName
  | foreign o => o.typeName

def shown : Key → String
  | value v => v.shown
  | foreign o => o.shown

def written : Key → Except Fault String
  | value v => .ok v.plain
  | foreign o => o.written

def equal : Key → Key → Bool
  | value v, value w => v.equal w
  | foreign o, foreign p => o.mark == p.mark
  | _, _ => false

def unhashable? : Key → Option String
  | value v => v.unhashable?
  | foreign o => o.unhashable?

def position? : Key → Option Int
  | value v => v.asInt?
  | foreign o => o.position?

def truth : Key → Except Fault Bool
  | value v => .ok !v.isBlank
  | foreign o => o.truth

/-- The failure of looking for a text in something of a type that holds nothing. -/
def notAContainer (typeName : String) : Fault :=
  .wrongType (if typeName == "bytes" then "a bytes-like object is required, not 'str'"
    else "argument of type '" ++ typeName ++ "' is not iterable")

/-- Whether a text of one character is found in a key: in a text as a part of it, in a collection as
an element or as a key. -/
def holds (key : Key) (c : Char) : Except Fault Bool :=
  match key with
  | value (.str s) => .ok (s.toList.contains c)
  | value (.list items) => .ok (member items)
  | value (.tuple items) => .ok (member items)
  | value (.dict entries) => .ok (member (entries.map (·.1)))
  | value v => .error (notAContainer v.typeName)
  | foreign o => o.holds c
where
  member (items : List Value) : Bool := items.any (·.equal (.str (String.singleton c)))

end Key

end Schemata
