import Schemata.Plan.Label
import Schemata.Validation.Container

/-!
# Running plans

The check that a plan stands for. A reference applies its definition, unless that definition is
being applied to the very same value already or too many references are open; both count as a
cycle.
-/

namespace Schemata

namespace Plan

variable (definitions : List (Nat × Plan))

mutual

/-- The check of a plan that was put together when `known` were complete. At most `depth`
references are opened inside one another. -/
def check (depth : Nat) (known : List (Nat × Plan)) : Plan → Check
  | .string strict => fun _ => Leaf.checkString strict
  | .number strict => fun _ => Leaf.checkNumber strict
  | .integer strict => fun _ => Leaf.checkInteger strict
  | .boolean strict => fun _ => Leaf.checkBoolean strict
  | .null => fun _ => Leaf.checkNull
  | .any => Check.anything
  | .literal expected => fun _ => Leaf.checkLiteral expected
  | .list items => Check.list (check depth known items)
  | .dict keys values => Check.dict (check depth known keys) (check depth known values)
  | .tuple items => Check.tuple (itemChecks depth known items)
  | .union choices => Check.union (choiceChecks depth known choices)
  | .nullable inner => Check.nullable (check depth known inner)
  | .chain first second => Check.chain (check depth known first) (check depth known second)
  | .object fields => Check.object (fieldChecks depth known fields)
  | .noneIfMissing inner => Check.ifMissing .none (check depth known inner)
  | .valueIfMissing value inner => Check.ifMissing value (check depth known inner)
  | .supplied _ inner => check depth known inner
  | .call function => Check.call function
  | .reference n => fun entered v s =>
    match depth with
    | 0 => .refuse .cyclic v
    | depth + 1 =>
      if n ∈ entered then .refuse .cyclic v
      else
        match definitions.lookup n with
        | none => .refuse .cyclic v
        | some body => check depth (completedBefore n definitions) body (n :: entered) v s
termination_by p => (depth, sizeOf p)

def itemChecks (depth : Nat) (known : List (Nat × Plan)) : List Plan → List Check.ItemCheck
  | [] => []
  | p :: rest =>
    { check := check depth known p, supply? := p.supply? } :: itemChecks depth known rest
termination_by ps => (depth, sizeOf ps)

def choiceChecks (depth : Nat) (known : List (Nat × Plan)) : List Plan → List Check.ChoiceCheck
  | [] => []
  | p :: rest =>
    { label := fun _ => p.choiceLabel definitions known, check := check depth known p }
      :: choiceChecks depth known rest
termination_by ps => (depth, sizeOf ps)

def fieldChecks (depth : Nat) (known : List (Nat × Plan)) :
    List (Field Plan) → List Check.FieldCheck
  | [] => []
  | { name, plan, required } :: rest =>
    { name, required, check := check depth known plan, supply? := plan.supply? }
      :: fieldChecks depth known rest
termination_by fs => (depth, sizeOf fs)

end

end Plan

namespace Validator

/-- How many references may be open at once. -/
def referenceLimit : Nat := 254

/-- Check a value against the whole plan. -/
def run (v : Validator) (value : Value) (s : Standing) : Verdict Value :=
  v.root.check v.definitions referenceLimit v.definitions [] value s

/-- Validate a value. -/
def validate (v : Validator) (value : Value) : Except Failure Value :=
  (v.run value .initial).toExcept

end Validator

end Schemata
