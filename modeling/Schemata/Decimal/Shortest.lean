import Schemata.Decimal.Binary

/-!
# Shortest decimals

The text of a floating point number: the fewest digits that read back as the same number, and of
those the nearest. Exponents from -4 to 15 are written positionally, and a number without a
fraction keeps its point and one zero.
-/

namespace Schemata.Decimal

/-- Number of decimal digits of `n`; zero has one. -/
def digitCount (n : Nat) : Nat :=
  (Nat.toDigits 10 n).length

/-- The exponent `e` with `10 ^ e ≤ num / den < 10 ^ (e + 1)`, for a positive fraction. -/
def leadingExponent (num den : Nat) : Int :=
  if den ≤ num then digitCount (num / den) - 1
  else .negOfNat (digitCount ((den + num - 1) / num - 1))

/-- The numbers that read back as one floating point number: from `low / den` to `high / den`
around `mid / den`, the ends included when `closed`. -/
structure Interval where
  low : Nat
  mid : Nat
  high : Nat
  den : Nat
  closed : Bool

/-- The interval around a positive number. Below a power of two the neighbour is half as far. -/
def Interval.around (mantissa : Nat) (exponent : Int) : Interval :=
  let narrow := mantissa == Nat.pow 2 52 && exponent > -1074
  let (unit, den) := ratio 1 (exponent - 2)
  { low := (4 * mantissa - if narrow then 1 else 2) * unit
    mid := 4 * mantissa * unit
    high := (4 * mantissa + 2) * unit
    den
    closed := mantissa % 2 == 0 }

/-- The multiple of `10 ^ k` inside the interval that is nearest to its middle, if there is one;
a tie goes to the even multiple. -/
def Interval.nearestMultiple? (i : Interval) (k : Int) : Option Nat :=
  let power := Nat.pow 10 k.natAbs
  let (scale, step) := if k < 0 then (power, i.den) else (1, power * i.den)
  let low := i.low * scale
  let mid := i.mid * scale
  let high := i.high * scale
  let below := mid / step
  let above := below + 1
  let belowIn : Bool := if i.closed then low ≤ below * step else low < below * step
  let aboveIn : Bool := if i.closed then above * step ≤ high else above * step < high
  match belowIn, aboveIn with
  | true, true =>
    let down := mid - below * step
    let up := above * step - mid
    if down < up then some below
    else if up < down then some above
    else some (if below % 2 == 0 then below else above)
  | true, false => some below
  | false, true => some above
  | false, false => none

/-- Digits and exponent of the shortest decimal for a positive number: it is `digits * 10 ^ k`. -/
def shortest (mantissa : Nat) (exponent : Int) : Nat × Int :=
  let i := Interval.around mantissa exponent
  let leading := leadingExponent i.mid i.den
  let found := (List.range 17).findSome? fun (n : Nat) =>
    let k := leading - n
    (i.nearestMultiple? k).map (·, k)
  found.getD (mantissa, 0)

/-- Drop trailing zeros of `digits`, at most `count` of them. -/
def dropZeros : (count digits : Nat) → Nat
  | 0, digits => digits
  | count + 1, digits => if digits % 10 == 0 then dropZeros count (digits / 10) else digits

def zeros (n : Nat) : String :=
  String.ofList (List.replicate n '0')

/-- Write the number whose significant digits are `digits` and whose leading digit counts
`10 ^ leading`. -/
def write (digits : List Char) (leading : Int) : String :=
  let text := String.ofList digits
  if -4 ≤ leading && leading < 16 then
    if leading < 0 then "0." ++ zeros (leading.natAbs - 1) ++ text
    else
      let whole := leading.toNat + 1
      if digits.length ≤ whole then text ++ zeros (whole - digits.length) ++ ".0"
      else String.ofList (digits.take whole) ++ "." ++ String.ofList (digits.drop whole)
  else
    let fraction := if digits.length ≤ 1 then "" else "." ++ String.ofList (digits.drop 1)
    let power := String.ofList ((Nat.toDigits 10 leading.natAbs).leftpad 2 '0')
    String.ofList (digits.take 1) ++ fraction ++ "e" ++ (if leading < 0 then "-" else "+") ++ power

/-- Text of a floating point number. -/
def text (f : Float) : String :=
  match Binary.ofFloat f with
  | .nan => "nan"
  | .infinite negative => if negative then "-inf" else "inf"
  | .finite negative mantissa exponent =>
    let sign := if negative then "-" else ""
    if mantissa == 0 then sign ++ "0.0"
    else
      let (digits, k) := shortest mantissa exponent
      let leading := k + digitCount digits - 1
      sign ++ write (Nat.toDigits 10 (dropZeros 17 digits)) leading

end Schemata.Decimal
