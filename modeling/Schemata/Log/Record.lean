import Schemata.Log.Format
import Schemata.Log.Level
import Schemata.Text.Blank
import Schemata.Text.Quoted

/-!
# Log records

A record is shown as its level, its message and the place it comes from. The rich form marks parts
of the line with styles and leaves out control characters; on a console it also replaces tabs.
-/

namespace Schemata.Log

structure Record where
  level : Int
  file : String
  line : Int
  message : String
  args : List Value

/-- Style of a part of a line, from one position up to another one. -/
structure Span where
  first : Nat
  last : Nat
  style : String
  deriving Repr, DecidableEq

/-- A line with styles. -/
structure StyledText where
  plain : String
  spans : List Span
  deriving Repr, DecidableEq

namespace StyledText

def empty : StyledText :=
  { plain := "", spans := [] }

/-- Control characters that a console would act upon. -/
def isControl (c : Char) : Bool :=
  [7, 8, 11, 12, 13].contains c.toNat

/-- Append a part without its control characters, under a style if there is one. -/
def append (t : StyledText) (part : String) (style : Option String) : StyledText :=
  let cs := part.toList.filter (!isControl ·)
  let first := t.plain.length
  let spans := match style with
    | some style =>
      if part.isEmpty then t.spans else t.spans ++ [⟨first, first + cs.length, style⟩]
    | none => t.spans
  { plain := t.plain ++ String.ofList cs, spans }

end StyledText

/-- The style of a level. -/
def styleOf? (n : Int) : Option String :=
  (Level.all.find? (·.number == n)).map fun
    | .debug => "dim"
    | .info => "cyan"
    | .warning => "yellow"
    | .error => "red"
    | .critical => "bold red"

namespace Record

/-- The name of a level takes up at least this many characters. -/
def levelWidth : Nat := 8

/-- Last part of the path of a file. -/
def baseName (path : String) : String :=
  String.ofList (path.toList.reverse.takeWhile (· != '/')).reverse

def location (r : Record) : String :=
  "[" ++ baseName r.file ++ ":" ++ toString r.line ++ "]"

def levelText (r : Record) : String :=
  Text.padRight levelWidth (Level.nameOf r.level)

def text (r : Record) : Except Failure String :=
  Log.message r.message (.ofValues r.args)

/-- The rich form of a record. -/
def render (r : Record) : Except Failure StyledText := do
  let message ← r.text
  return StyledText.empty
    |>.append r.levelText (styleOf? r.level)
    |>.append " " none
    |>.append message none
    |>.append " " none
    |>.append r.location (some "dim")

/-- The plain form of a record. -/
def plainLine (r : Record) : Except Failure String := do
  let message ← r.text
  return r.levelText ++ " " ++ message ++ " " ++ r.location

end Record

-- ---------------------------------------------------------------------------
-- Consoles
-- ---------------------------------------------------------------------------

/-- Columns between tab stops. -/
def tabWidth : Nat := 8

/-- Replace tabs in a line by spaces up to the next tab stop. -/
def expandTabs (column : Nat) : List Char → List Char
  | [] => []
  | '\t' :: rest =>
    let spaces := tabWidth - column % tabWidth
    List.replicate spaces ' ' ++ expandTabs (column + spaces) rest
  | c :: rest => c :: expandTabs (column + 1) rest

/-- Remove blanks from the end of a line, as far as they lie beyond the width of the console. -/
def cropBlanks (width : Nat) (line : List Char) : List Char :=
  let blanks := (line.reverse.takeWhile Text.isBlank).length
  line.take (line.length - min blanks (line.length - width))

/-- Lines of a text. -/
def linesOf (cs : List Char) : List (List Char) :=
  cs.foldr (fun c lines =>
    match c, lines with
    | '\n', lines => [] :: lines
    | c, line :: rest => (c :: line) :: rest
    | c, [] => [[c]]) [[]]

/-- What a console of some width shows of a text. Lines are never broken. -/
def onConsole (width : Nat) (plain : String) : String :=
  let lines := (linesOf plain.toList).map fun line =>
    String.ofList (cropBlanks width (expandTabs 0 line))
  "\n".intercalate lines ++ "\n"

/-- Where records go. -/
inductive Handler where
  | rich
  | plain
  deriving Repr, DecidableEq

/-- The width of a console that has none of its own. -/
def defaultWidth : Nat := 80

/-- What a handler writes for a record. A record whose message cannot be formatted is dropped. -/
def Handler.emit (handler : Handler) (width : Nat) (r : Record) : String :=
  match handler with
  | rich =>
    match r.render with
    | .ok text => onConsole width text.plain
    | .error _ => ""
  | plain =>
    match r.plainLine with
    | .ok line => line ++ "\n"
    | .error _ => ""

end Schemata.Log
