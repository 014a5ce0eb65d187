import Schemata.Plan.Basic
import Schemata.Value.Printer

/-!
# Labels of plans

The place of an issue inside an alternative begins with the label of the choice that was tried. A
label spells out the structure of a plan. Where a definition is not complete yet, or refers to
itself, three points stand for its label.

A label is fixed when the plan that holds it is put together, and then only the definitions
completed earlier are known. Two labels stay open until they are needed: that of a reference, and
that of a list whose elements had no label yet.
-/

namespace Schemata

/-- Stands for the label of a definition that is not known. -/
def openLabel : String := "..."

/-- The definitions that are complete when definition `n` is put together. -/
def completedBefore (n : Nat) (definitions : List (Nat × Plan)) : List (Nat × Plan) :=
  definitions.takeWhile (·.1 != n)

/-- All definitions but definition `n`. -/
def withoutDefinition (n : Nat) (definitions : List (Nat × Plan)) : List (Nat × Plan) :=
  definitions.filter (·.1 != n)

theorem length_completedBefore_lt {n : Nat} {body : Plan} {definitions : List (Nat × Plan)}
    (h : definitions.lookup n = some body) :
    (completedBefore n definitions).length < definitions.length := by
  induction definitions with
  | nil => simp at h
  | cons d rest ih =>
    obtain ⟨m, p⟩ := d
    by_cases hm : m = n
    · simp [completedBefore, hm]
    · have hm' : (n == m) = false := by simpa using fun e => hm e.symm
      have := ih (by simpa [List.lookup_cons, hm'] using h)
      simpa [completedBefore, hm] using this

theorem length_withoutDefinition_lt {n : Nat} {body : Plan} {definitions : List (Nat × Plan)}
    (h : definitions.lookup n = some body) :
    (withoutDefinition n definitions).length < definitions.length := by
  induction definitions with
  | nil => simp at h
  | cons d rest ih =>
    obtain ⟨m, p⟩ := d
    by_cases hm : m = n
    · have := List.length_filter_le (fun d : Nat × Plan => d.1 != n) rest
      simp [withoutDefinition, hm]
      omega
    · have hm' : (n == m) = false := by simpa using fun e => hm e.symm
      have := ih (by simpa [List.lookup_cons, hm'] using h)
      simpa [withoutDefinition, hm] using this

namespace Plan

/-- Whether the label of a plan stays open until it is needed. -/
def labelStaysOpen (p : Plan) : Bool :=
  match p.alone with
  | .list _ => true
  | .reference _ => true
  | _ => false

/-- Text of an operation in a label. -/
def operationLabel (sort name : String) : String :=
  sort ++ "[" ++ name ++ "()]"

mutual

/-- The label of a plan when the definitions `known` are complete. -/
def label (known : List (Nat × Plan)) : Plan → String
  | .string _ => "str"
  | .number _ => "float"
  | .integer _ => "int"
  | .boolean _ => "bool"
  | .null => "none"
  | .any => "any"
  | .literal expected => "literal[" ++ ",".intercalate (expected.map Value.shown) ++ "]"
  | .list items => "list[" ++ label known items ++ "]"
  | .dict keys values => "dict[" ++ label known keys ++ "," ++ label known values ++ "]"
  | .tuple items => "tuple[" ++ ", ".intercalate (labels known items) ++ "]"
  | .union [choice] => label known choice
  | .union choices => "union[" ++ ",".intercalate (labels known choices) ++ "]"
  | .nullable inner => "nullable[" ++ label known inner ++ "]"
  | .chain first second => "chain[" ++ chainLabel known first ++ "," ++ chainLabel known second ++ "]"
  | .object _ => "typed-dict"
  | .noneIfMissing _ => operationLabel "function-wrap" "_missing_as_none"
  | .valueIfMissing value _ =>
    operationLabel "function-wrap"
      ("functools.partial(_missing_as_default, " ++ value.shown ++ ")")
  | .supplied _ inner => "default[" ++ label known inner ++ "]"
  | .call function => operationLabel "function-plain" function.name
  | .reference n =>
    match _h : known.lookup n with
    | none => openLabel
    | some body =>
      if body.labelStaysOpen then label (withoutDefinition n known) body
      else label (completedBefore n known) body
termination_by p => (known.length, 2 * sizeOf p)
decreasing_by
  all_goals first
    | exact Prod.Lex.left _ _ (length_withoutDefinition_lt _h)
    | exact Prod.Lex.left _ _ (length_completedBefore_lt _h)
    | (apply Prod.Lex.right; simp +arith)

/-- The labels of plans in order. -/
def labels (known : List (Nat × Plan)) : List Plan → List String
  | [] => []
  | p :: rest => label known p :: labels known rest
termination_by ps => (known.length, 2 * sizeOf ps)

/-- The labels of the steps of a chain, with commas between them. -/
def chainLabel (known : List (Nat × Plan)) : Plan → String
  | .chain first second => chainLabel known first ++ "," ++ chainLabel known second
  | .union [choice] => chainLabel known choice
  | p => label known p
termination_by p => (known.length, 2 * sizeOf p + 1)

end

/-- The label of a choice when validation has refused it: `known` were complete when the union was
put together, and `all` are complete now. -/
def choiceLabel (all known : List (Nat × Plan)) (choice : Plan) : String :=
  match choice.alone with
  | .list items =>
    let settled := label known items
    "list[" ++ (if settled == openLabel then label all items else settled) ++ "]"
  | .reference n => label all (.reference n)
  | p => label known p

end Plan

end Schemata
