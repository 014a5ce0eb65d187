/-!
# Binary fractions

The exact value of a floating point number, as an integer times a power of two. All comparisons
and conversions between floating point numbers and integers go through it.
-/

namespace Schemata.Decimal

/-- What a floating point number stands for. A finite one is `mantissa * 2 ^ exponent`. -/
inductive Binary where
  | nan
  | infinite (negative : Bool)
  | finite (negative : Bool) (mantissa : Nat) (exponent : Int)
  deriving Repr, DecidableEq

/-- Exact value of `f`. -/
def Binary.ofFloat (f : Float) : Binary :=
  let bits := f.toBits.toNat
  let negative := bits / Nat.pow 2 63 == 1
  let exponent : Nat := bits / Nat.pow 2 52 % Nat.pow 2 11
  let fraction : Nat := bits % Nat.pow 2 52
  if exponent == 2047 then
    if fraction == 0 then .infinite negative else .nan
  else if exponent == 0 then .finite negative fraction (-1074)
  else .finite negative (Nat.pow 2 52 + fraction) (exponent - 1075 : Int)

/-- Numerator and denominator of the magnitude of a finite number. -/
def ratio (mantissa : Nat) (exponent : Int) : Nat × Nat :=
  if exponent < 0 then (mantissa, Nat.pow 2 exponent.natAbs)
  else (mantissa * Nat.pow 2 exponent.natAbs, 1)

def signed (negative : Bool) (n : Nat) : Int :=
  if negative then -n else n

/-- The integer that `b` is, if it is one. -/
def Binary.toInt? : Binary → Option Int
  | .finite negative mantissa exponent =>
    let (num, den) := ratio mantissa exponent
    if num % den == 0 then some (signed negative (num / den)) else none
  | _ => none

/-- The integer part of a finite number. -/
def Binary.truncate? : Binary → Option Int
  | .finite negative mantissa exponent =>
    let (num, den) := ratio mantissa exponent
    some (signed negative (num / den))
  | _ => none

def isFinite (f : Float) : Bool :=
  match Binary.ofFloat f with
  | .finite .. => true
  | _ => false

/-- The nearest floating point number, unless `n` is beyond the finite range. -/
def ofInt? (n : Int) : Option Float :=
  let magnitude := Float.ofScientific n.natAbs false 0
  if isFinite magnitude then some (if n < 0 then -magnitude else magnitude) else none

end Schemata.Decimal
