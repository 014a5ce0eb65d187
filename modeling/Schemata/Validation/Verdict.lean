import Schemata.Failure

/-!
# Verdicts

The outcome of checking a value, and how well the value fits. The fit is threaded through a check:
conversions lower it, and it decides between the choices of a union.
-/

namespace Schemata

/-- How closely values fit, the loosest first. -/
inductive Exactness where
  /-- Some value was converted. -/
  | lax
  /-- Some integer was taken for a number. -/
  | strict
  | exact
  deriving Repr, DecidableEq

namespace Exactness

def rank : Exactness → Nat
  | lax => 0
  | strict => 1
  | exact => 2

/-- The looser of two. -/
def floor (e f : Exactness) : Exactness :=
  if e.rank < f.rank then e else f

end Exactness

/-- How well the values checked so far fit. -/
structure Standing where
  /-- Nothing outside unions, where closeness does not matter. -/
  exactness : Option Exactness
  /-- How many properties of objects were given, if there was an object. -/
  fields : Option Nat
  deriving Repr, DecidableEq

namespace Standing

/-- The standing outside unions. -/
def initial : Standing :=
  { exactness := none, fields := none }

/-- The standing in which a choice of a union is tried. -/
def fresh : Standing :=
  { exactness := some .exact, fields := none }

/-- Lower the exactness to at most `e`. -/
def floor (s : Standing) (e : Exactness) : Standing :=
  { s with exactness := s.exactness.map (·.floor e) }

/-- Count the given properties of one more object. -/
def addFields (s : Standing) (n : Nat) : Standing :=
  { s with fields := some (s.fields.getD 0 + n) }

/-- A choice that fits like this is taken at once. -/
def isPerfect (s : Standing) : Bool :=
  s == fresh

/-- Whether a choice with the second standing is better than an earlier one with the first. -/
def isBetter (best new : Standing) : Bool :=
  let byExactness : Bool :=
    (best.exactness.getD .lax).rank < (new.exactness.getD .lax).rank
  match best.fields, new.fields with
  | some m, some n => if m = n then byExactness else m < n
  | _, _ => byExactness

/-- The standing behind a union whose best choice had the standing `best`. -/
def afterUnion (s best : Standing) : Standing :=
  let floored := s.floor (best.exactness.getD .lax)
  match best.fields with
  | none => floored
  | some n => floored.addFields n

end Standing

/-- Outcome of a check. -/
inductive Verdict (α : Type) where
  | accepted (result : α) (standing : Standing)
  /-- The value is not valid, for at least one reason. -/
  | refused (issues : List Issue)
  /-- The check itself broke off. -/
  | failed (failure : Failure)

namespace Verdict

variable {α β γ : Type}

/-- Refuse a value for one reason. -/
def refuse (complaint : Complaint) (input : Value) : Verdict α :=
  .refused [.here complaint input]

def map (f : α → β) : Verdict α → Verdict β
  | accepted a s => accepted (f a) s
  | refused issues => refused issues
  | failed failure => failed failure

/-- Go on with an accepted result. -/
def andThen (v : Verdict α) (next : α → Standing → Verdict β) : Verdict β :=
  match v with
  | accepted a s => next a s
  | refused issues => refused issues
  | failed failure => failed failure

/-- See the issues from one level further out. -/
def under (step : Place) : Verdict α → Verdict α
  | refused issues => refused (issues.map (·.under step))
  | v => v

/-- Combine two checks of which the second is made even if the first one refuses its value, so that
all issues are found. -/
def both (first : Verdict α) (s : Standing) (second : Standing → Verdict β) (f : α → β → γ) :
    Verdict γ :=
  match first with
  | accepted a s' => (second s').map (f a)
  | refused issues =>
    match second s with
    | accepted _ _ => refused issues
    | refused more => refused (issues ++ more)
    | failed failure => failed failure
  | failed failure => failed failure

/-- The result, if there is one. -/
def toExcept : Verdict α → Except Failure α
  | accepted a _ => .ok a
  | refused issues => .error (.invalid issues)
  | failed failure => .error failure

end Verdict

/-- A check of values. `entered` are the definitions that are being applied to this very value. -/
abbrev Check := (entered : List Nat) → Value → Standing → Verdict Value

end Schemata
