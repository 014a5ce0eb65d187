import Schemata.Decimal.Binary
import Schemata.Failure
import Schemata.Value.Printer

/-!
# Messages with arguments

A message holds a directive for each of its arguments: `%s` for the plain text of a value, `%r` for
the value as it would be written down, `%d` for an integer, and `%%` for a percent sign.
-/

namespace Schemata.Log

/-- The arguments of a message. -/
inductive Arguments where
  | values (given : List Value)
  /-- A dictionary, which counts as one argument that need not be used. -/
  | mapping (entries : List (Value × Value))

/-- A single dictionary with entries is taken as a mapping. -/
def Arguments.ofValues : List Value → Arguments
  | [.dict (entry :: rest)] => mapping (entry :: rest)
  | given => values given

/-- A value as an integer. -/
def integerText (v : Value) : Except Failure String :=
  match v with
  | .float f =>
    match Decimal.Binary.ofFloat f with
    | .nan => .error (.badFormat "cannot convert float NaN to integer")
    | .infinite _ => .error (.tooLargeToFormat "cannot convert float infinity to integer")
    | b => .ok (toString (b.truncate?.getD 0))
  | .int n => .ok (toString n)
  | .bool b => .ok (if b then "1" else "0")
  | _ =>
    .error (.notFormattable
      ("%d format: a real number is required, not " ++ v.typeName))

/-- What a directive makes of a value. -/
def directive? : Char → Option (Value → Except Failure String)
  | 's' => some fun v => .ok v.plain
  | 'r' => some fun v => .ok v.shown
  | 'd' => some integerText
  | _ => none

/-- The text of a character in a complaint about it. -/
def unsupported (c : Char) (position : Nat) : Failure :=
  .badFormat ("unsupported format character '" ++ String.singleton c ++ "' (0x"
    ++ String.ofList (Nat.toDigits 16 c.toNat) ++ ") at index " ++ toString position)

/-- Fill the directives of the characters from `position` on. The second part of the result are the
arguments that are left. -/
def fill (position : Nat) : List Char → List Value → Except Failure (String × List Value)
  | [], left => .ok ("", left)
  | '%' :: [], _ => .error (.badFormat "incomplete format")
  | '%' :: '%' :: rest, left => do
    let (text, left) ← fill (position + 2) rest left
    return ("%" ++ text, left)
  | '%' :: c :: rest, left =>
    match left, directive? c with
    | [], _ => .error .missingArguments
    | _, none => .error (unsupported c (position + 1))
    | v :: left, some write => do
      let head ← write v
      let (text, left) ← fill (position + 2) rest left
      return (head ++ text, left)
  | c :: rest, left => do
    let (text, left) ← fill (position + 1) rest left
    return (String.singleton c ++ text, left)

/-- A message with its arguments. Without arguments the message stands as it is. -/
def message (text : String) (args : Arguments) : Except Failure String :=
  match args with
  | .values [] => .ok text
  | .values given => do
    let (text, left) ← fill 0 text.toList given
    if left.isEmpty then return text else throw .extraArguments
  | .mapping entries => do
    let (text, _) ← fill 0 text.toList [.dict entries]
    return text

end Schemata.Log
