import Schemata.Text.Printable

/-!
# Quoted text

How text and bytes are shown inside messages: between quotes, with a backslash before what could
not be read back otherwise. Double quotes are used only for a text that holds a single quote and
no double quote.
-/

namespace Schemata.Text

def singleQuote : Char := '\x27'

def doubleQuote : Char := '\x22'

/-- `n` in lower-case hexadecimal, padded with zeros to `width` digits. -/
def hex (width n : Nat) : List Char :=
  (Nat.toDigits 16 n).leftpad width '0'

/-- The quote that surrounds `cs`. -/
def quoteFor (cs : List Char) : Char :=
  if cs.contains singleQuote && !cs.contains doubleQuote then doubleQuote else singleQuote

/-- The escape of a character that is written with a letter. -/
def letterEscape? : Char → Option Char
  | '\n' => some 'n'
  | '\r' => some 'r'
  | '\t' => some 't'
  | _ => none

/-- Hexadecimal escape with as few digits as the code point needs: two, four or eight. -/
def hexEscape (n : Nat) : List Char :=
  if n < 0x100 then '\\' :: 'x' :: hex 2 n
  else if n < 0x10000 then '\\' :: 'u' :: hex 4 n
  else '\\' :: 'U' :: hex 8 n

/-- How one character stands between the quotes `quote`. -/
def quoteChar (quote c : Char) : List Char :=
  if c == '\\' || c == quote then ['\\', c]
  else
    match letterEscape? c with
    | some letter => ['\\', letter]
    | none => if isPrintable c then [c] else hexEscape c.toNat

/-- `s` between quotes. -/
def quoted (s : String) : String :=
  let cs := s.toList
  let quote := quoteFor cs
  String.ofList (quote :: cs.flatMap (quoteChar quote) ++ [quote])

/-- Bytes between quotes, marked by a leading `b`. Only printable ASCII stands for itself. -/
def quotedBytes (bytes : List UInt8) : String :=
  let cs := bytes.map fun b => Char.ofNat b.toNat
  let quote := quoteFor cs
  let body := cs.flatMap fun c =>
    if c.toNat < 0x7f then quoteChar quote c else hexEscape c.toNat
  String.ofList ('b' :: quote :: body ++ [quote])

/-- Lower-case hexadecimal digits of `bytes`, two for each. -/
def hexBytes (bytes : List UInt8) : String :=
  String.ofList (bytes.flatMap fun b => hex 2 b.toNat)

/-- Pad on the right with spaces to `width` characters. -/
def padRight (width : Nat) (s : String) : String :=
  s ++ String.ofList (List.replicate (width - s.length) ' ')

end Schemata.Text
