import Schemata.Text.Blank
import Schemata.Text.Digit

/-!
# Reading numerals

Three readers. `integer?` reads the whole number of a lenient integer field, which may carry a
fraction of zeros. `float?` reads floating point notation. `setting?` reads an integer setting,
with the digits of any script.
-/

namespace Schemata.Decimal

open Text

/-- The most digits that an integer may be written with. -/
def digitLimit : Nat := 4300

/-- Value of ASCII digits. -/
def natOfDigits (cs : List Char) : Nat :=
  cs.foldl (fun n c => 10 * n + (c.toNat - '0'.toNat)) 0

/-- Digits with single underscores between them, without the underscores. -/
def joinGroups? (cs : List Char) : Option (List Char) :=
  let rec go : Bool → List Char → Option (List Char)
    | afterDigit, [] => if afterDigit then some [] else none
    | afterDigit, c :: rest =>
      if c.isDigit then (go true rest).map (c :: ·)
      else if c == '_' && afterDigit then go false rest
      else none
  go false cs

/-- Split a sign from the front. -/
def splitSign : List Char → Bool × List Char
  | '-' :: rest => (true, rest)
  | '+' :: rest => (false, rest)
  | cs => (false, cs)

-- ---------------------------------------------------------------------------
-- Lenient integers
-- ---------------------------------------------------------------------------

/-- Remove the zeros in front of an unsigned numeral, with any underscores among them. A zero that
stands before a point or ends the numeral stays. -/
def dropLeadingZeros : List Char → Option (List Char)
  | '0' :: rest =>
    let rec go (previous : Char) : List Char → Option (List Char)
      | [] => some [previous]
      | c :: rest =>
        if c == '0' || c == '_' then go c rest
        else if c.isDigit then some (c :: rest)
        else if c == '.' then some (previous :: c :: rest)
        else none
    go '0' rest
  | c :: rest => if c.isDigit || c == '-' then some (c :: rest) else none
  | [] => none

/-- Remove a fraction that holds zeros only, and at least one of them. -/
def dropZeroFraction (cs : List Char) : List Char :=
  let whole := cs.takeWhile (· != '.')
  let fraction := cs.drop (whole.length + 1)
  if !fraction.isEmpty && fraction.all (· == '0') then whole else cs

/-- Remove underscores, none of which may be doubled or stand at an end. -/
def dropUnderscores? (cs : List Char) : Option (List Char) :=
  let rec doubled : List Char → Bool
    | '_' :: '_' :: _ => true
    | _ :: rest => doubled rest
    | [] => false
  if cs.head? == some '_' || cs.getLast? == some '_' || doubled cs then none
  else some (cs.filter (· != '_'))

/-- Outcome of reading a lenient integer. -/
inductive IntegerReading where
  | value (n : Int)
  | tooLong
  | unreadable
  deriving Repr, DecidableEq

/-- Read a whole number: white space around it, a sign, leading zeros, single underscores between
digits and a fraction of zeros are allowed. -/
def integer (s : String) : IntegerReading :=
  let cs := trim isWhiteSpace s.toList
  let unsigned? := match cs with
    | '+' :: '-' :: _ => none
    | '+' :: rest => some rest
    | _ => some cs
  match (unsigned?.bind dropLeadingZeros).map dropZeroFraction with
  | none => .unreadable
  | some cs =>
    match dropUnderscores? cs with
    | none => .unreadable
    | some cs =>
      if digitLimit < cs.length then .tooLong
      else
        let (negative, digits) := match cs with
          | '-' :: rest => (true, rest)
          | _ => (false, cs)
        if digits.isEmpty || !digits.all Char.isDigit then .unreadable
        else
          let n : Int := natOfDigits digits
          .value (if negative then -n else n)

-- ---------------------------------------------------------------------------
-- Floating point notation
-- ---------------------------------------------------------------------------

/-- The nearest floating point number to `mantissa * 10 ^ exponent`. Numbers that lie far outside
the range are decided by their size alone. -/
def scientific (mantissa : Nat) (exponent : Int) : Float :=
  let leading := exponent + (Nat.toDigits 10 mantissa).length
  if mantissa == 0 || leading < -400 then 0.0
  else if 400 < leading then 1.0 / 0.0
  else Float.ofScientific mantissa (exponent < 0) exponent.natAbs

/-- Exponent mark and exponent at the end of a numeral; nothing stands for zero. -/
def exponent? : List Char → Option Int
  | [] => some 0
  | c :: rest =>
    if c == 'e' || c == 'E' then
      let (negative, digits) := splitSign rest
      if digits.isEmpty || !digits.all Char.isDigit then none
      else
        let n : Int := natOfDigits digits
        some (if negative then -n else n)
    else none

/-- An unsigned number: digits with a point somewhere, and perhaps an exponent. -/
def unsignedFloat? (cs : List Char) : Option Float :=
  let whole := cs.takeWhile Char.isDigit
  let rest := cs.drop whole.length
  let (fraction, rest) := match rest with
    | '.' :: rest =>
      let fraction := rest.takeWhile Char.isDigit
      (fraction, rest.drop fraction.length)
    | _ => ([], rest)
  if whole.isEmpty && fraction.isEmpty then none
  else (exponent? rest).map fun e =>
    scientific (natOfDigits (whole ++ fraction)) (e - fraction.length)

/-- A number in floating point notation, or the name of infinity or of not-a-number. -/
def signedFloat? (cs : List Char) : Option Float :=
  let (negative, cs) := splitSign cs
  let magnitude? :=
    match String.ofList (cs.map Char.toLower) with
    | "inf" | "infinity" => some (1.0 / 0.0)
    | "nan" => some (0.0 / 0.0)
    | _ => unsignedFloat? cs
  magnitude?.map fun f => if negative then -f else f

/-- Read floating point notation, with white space around it or single underscores inside it. -/
def float? (s : String) : Option Float :=
  match signedFloat? (trim isWhiteSpace s.toList) with
  | some f => some f
  | none => (dropUnderscores? s.toList).bind signedFloat?

-- ---------------------------------------------------------------------------
-- Integer settings
-- ---------------------------------------------------------------------------

/-- Read an integer setting: blanks around it, a sign, and digits of any script with single
underscores between them. -/
def setting? (s : String) : Option Int :=
  let ascii := (trim isBlank s.toList).map fun c =>
    match digitValue? c with
    | some n => Char.ofNat ('0'.toNat + n)
    | none => c
  let (negative, digits) := splitSign ascii
  (joinGroups? digits).bind fun digits =>
    if digitLimit < digits.length then none
    else
      let n : Int := natOfDigits digits
      some (if negative then -n else n)

end Schemata.Decimal
