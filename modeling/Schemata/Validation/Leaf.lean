import Schemata.Decimal.Numeral
import Schemata.Validation.Verdict
import Schemata.Value.Equality

/-!
# Checks of single values

A strict check takes values of its own type only, except that a number may be given as an integer.
A lax check also converts from text, from bytes that hold text, and between numbers and booleans.
-/

namespace Schemata.Leaf

open Decimal

/-- The text that bytes hold, if they hold any. -/
def decode? (bytes : List UInt8) : Option String :=
  String.fromUTF8? ⟨bytes.toArray⟩

/-- Whether an integer fits into 64 bits. -/
def fitsWord (n : Int) : Bool :=
  -Int.pow 2 63 ≤ n && n < Int.pow 2 63

-- ---------------------------------------------------------------------------
-- Text
-- ---------------------------------------------------------------------------

def checkString (strict : Bool) (v : Value) (s : Standing) : Verdict Value :=
  match v with
  | .str _ => .accepted v s
  | .bytes bytes =>
    if strict then .refuse .stringType v
    else
      match decode? bytes with
      | some text => .accepted (.str text) (s.floor .lax)
      | none => .refuse .stringUnicode v
  | _ => .refuse .stringType v

-- ---------------------------------------------------------------------------
-- Integers
-- ---------------------------------------------------------------------------

def integerOfText (text : String) (v : Value) (s : Standing) : Verdict Value :=
  match Decimal.integer text with
  | .value n => .accepted (.int n) (s.floor .lax)
  | .tooLong => .refuse .integerSize v
  | .unreadable => .refuse .integerParsing v

def integerOfFloat (f : Float) (v : Value) (s : Standing) : Verdict Value :=
  if !isFinite f then .refuse .numberInfinite v
  else
    match (Binary.ofFloat f).toInt? with
    | none => .refuse .integerFraction v
    | some n =>
      if fitsWord n then .accepted (.int n) (s.floor .lax) else .refuse .integerSize v

def checkInteger (strict : Bool) (v : Value) (s : Standing) : Verdict Value :=
  match v with
  | .int _ => .accepted v s
  | _ =>
    if strict then .refuse .integerType v
    else
      match v with
      | .bool b => .accepted (.int (if b then 1 else 0)) (s.floor .lax)
      | .float f => integerOfFloat f v s
      | .str text => integerOfText text v s
      | .bytes bytes =>
        match decode? bytes with
        | some text => integerOfText text v s
        | none => .refuse .integerParsing v
      | _ => .refuse .integerType v

-- ---------------------------------------------------------------------------
-- Numbers
-- ---------------------------------------------------------------------------

/-- Accept a number unless it is infinite or no number. -/
def finite (f : Float) (v : Value) (s : Standing) : Verdict Value :=
  if isFinite f then .accepted (.float f) s else .refuse .numberInfinite v

def numberOfText (text : String) (v : Value) (s : Standing) : Verdict Value :=
  match float? text with
  | some f => finite f v (s.floor .lax)
  | none => .refuse .numberParsing v

def checkNumber (strict : Bool) (v : Value) (s : Standing) : Verdict Value :=
  match v with
  | .float f => finite f v s
  | .int n =>
    match ofInt? n with
    | some f => .accepted (.float f) (s.floor .strict)
    | none => .refuse .numberType v
  | _ =>
    if strict then .refuse .numberType v
    else
      match v with
      | .bool b => .accepted (.float (if b then 1.0 else 0.0)) (s.floor .lax)
      | .str text => numberOfText text v s
      | .bytes bytes =>
        match decode? bytes with
        | some text => numberOfText text v s
        | none => .refuse .numberParsing v
      | _ => .refuse .numberType v

-- ---------------------------------------------------------------------------
-- Booleans
-- ---------------------------------------------------------------------------

/-- The words that stand for a boolean, in any case. -/
def booleanWords : List (String × Bool) :=
  [("0", false), ("off", false), ("f", false), ("false", false), ("n", false), ("no", false),
   ("1", true), ("on", true), ("t", true), ("true", true), ("y", true), ("yes", true)]

def booleanOfText (text : String) (v : Value) (s : Standing) : Verdict Value :=
  match booleanWords.lookup (String.ofList (text.toList.map Char.toLower)) with
  | some b => .accepted (.bool b) (s.floor .lax)
  | none => .refuse .booleanParsing v

def checkBoolean (strict : Bool) (v : Value) (s : Standing) : Verdict Value :=
  match v with
  | .bool _ => .accepted v s
  | _ =>
    if strict then .refuse .booleanType v
    else
      match v with
      | .int n =>
        if n = 0 then .accepted (.bool false) (s.floor .lax)
        else if n = 1 then .accepted (.bool true) (s.floor .lax)
        else .refuse (if fitsWord n then .booleanParsing else .booleanType) v
      | .float f =>
        if f == 0.0 then .accepted (.bool false) (s.floor .lax)
        else if f == 1.0 then .accepted (.bool true) (s.floor .lax)
        else .refuse .booleanType v
      | .str text => booleanOfText text v s
      | .bytes bytes =>
        match decode? bytes with
        | some text => booleanOfText text v s
        | none => .refuse .booleanParsing v
      | _ => .refuse .booleanType v

def checkNull (v : Value) (s : Standing) : Verdict Value :=
  match v with
  | .none => .accepted .none s
  | _ => .refuse .noneRequired v

-- ---------------------------------------------------------------------------
-- Literals
-- ---------------------------------------------------------------------------

/-- Text, and integers that fit into 64 bits. -/
def isPlain : Value → Bool
  | .str _ => true
  | .int n => fitsWord n
  | _ => false

/-- Text, integers and booleans. -/
def isPrimitive : Value → Bool
  | .str _ | .int _ | .bool _ => true
  | _ => false

/-- The last of the expected values with some property that equals `v`. -/
def lastEqual? (among : Value → Bool) (expected : List Value) (v : Value) : Option Value :=
  expected.reverse.find? fun e => among e && e.equal v

/-- The expected value that stands for `v`. A boolean, an integer or a text is first looked for
among the values of its own type. Then equal values count, first those that are neither text nor
integers, among these the ones that can be keys before the others, and last the rest. -/
def literalMatch? (expected : List Value) (v : Value) : Option Value :=
  let typed? := if isPlain v || v.isBool then expected.reverse.find? (·.equalTyped v) else none
  let isKey (e : Value) : Bool := !isPlain e && e.unhashable?.isNone
  let isOther (e : Value) : Bool := e.unhashable?.isSome
  let hashable := v.unhashable?.isNone
  typed?
    <|> (if hashable then lastEqual? isKey expected v else none)
    <|> expected.find? (fun e => isOther e && e.equal v)
    <|> (if hashable then lastEqual? isPrimitive expected v else none)

/-- Whether an integer cannot be compared with the expected ones. -/
def overflows (expected : List Value) : Value → Bool
  | .int n => !fitsWord n && expected.any fun e => e.typeName == "int" && isPlain e
  | _ => false

def checkLiteral (expected : List Value) (v : Value) (s : Standing) : Verdict Value :=
  if overflows expected v then .refuse .integerSize v
  else
    match literalMatch? expected v with
    | some e => .accepted e s
    | none => .refuse (.unexpected (expected.map Value.shown)) v

end Schemata.Leaf
