import Schemata.StaticType.Equality

/-!
# Forward references

The text of a reference stands for a type that was derived for a lazy schema, or for what the namespace
of the shape that uses the text makes of it. The references in the field of a shape are replaced by
their targets when the field is looked up, together with the references in those targets. A reference
to a text that is being replaced already is left as it is, so the result is finite. Shapes inside a
field are not entered.

A text is evaluated as an expression, with one of three outcomes: a type, for want of a name nothing at
all, or another failure. A field with a text of the second sort can hold nothing, and looking up a field
with one of the third sort fails.
-/

namespace Schemata

/-- What names stand for. -/
structure Names where
  /-- Targets of the references that derivation has made. -/
  derived : List (String × StaticType)
  /-- Declared types with their namespaces and the texts that stand for them, the latest first. -/
  declared : List (Space × String × StaticType)
  /-- The namespace of a field that is nothing but a reference, if it has one of its own. Such a
  reference belongs to the module in which its shape was made. -/
  bare : ShapeId → Option Space
  /-- How evaluating a text in a namespace fails, given the texts that stand for types there. There is
  no failure for want of a name. -/
  failing : Space → List (String × StaticType) → String → Option Fault

namespace StaticType

/-- The failure of asking a type for a member. -/
def noMember (member : String) (t : StaticType) : Fault :=
  .other "AttributeError" <|
    match t with
    | schema c _ => ofClass c.name
    | shape _ name _ _ => ofClass name
    | plain p => ofClass p.name
    | list _ => ofClass PlainType.list.name
    | dict _ _ => ofClass PlainType.dict.name
    | tuple _ => ofClass "tuple"
    | any => ofClass "Any"
    | none => ofObject Value.none.typeName
    | reference _ => ofObject "ForwardRef"
    | never | literal _ | union _ => member
where
  ofClass (name : String) : String :=
    "type object '" ++ name ++ "' has no attribute '" ++ member ++ "'"
  ofObject (name : String) : String :=
    "'" ++ name ++ "' object has no attribute '" ++ member ++ "'"

/-- The name and the member that a reference with a point in it asks for. -/
def member? (reference : String) : Option (String × String) :=
  match reference.toList.dropWhile (· != '.') with
  | _ :: rest =>
    some (.ofList (reference.toList.takeWhile (· != '.')), .ofList (rest.takeWhile (· != '.')))
  | [] => Option.none

/-- The failure of a reference that asks a known name for a member that types do not have. -/
def memberFault (entries : List (String × StaticType)) (reference : String) : Option Fault := do
  let (name, member) ← member? reference
  let owner ← entries.lookup name
  return owner.noMember member

end StaticType

namespace Names

/-- Nothing has a name yet, and references may ask names for members. -/
def empty : Names :=
  { derived := [], declared := [], bare := fun _ => none, failing := fun _ => StaticType.memberFault }

/-- The types declared in one namespace. -/
def declaredIn (names : Names) (space : Space) : List (String × StaticType) :=
  names.declared.filterMap fun (s, entry) => if s = space then some entry else none

/-- What can be used from a namespace, or without one; a derived name hides a declared one. -/
def seenFrom (names : Names) : Option Space → List (String × StaticType)
  | some space => names.derived ++ names.declaredIn space
  | none => names.derived

/-- The names that the fields of a shape can use, with their targets. -/
def visible (names : Names) (shape : ShapeId) : List (String × StaticType) :=
  names.seenFrom shape.space?

/-- All names with their targets. -/
def all (names : Names) : List (String × StaticType) :=
  names.derived ++ names.declared.map (·.2)

/-- How many entries have a name that is not open. -/
def closedCount (entries : List (String × StaticType)) (opened : List String) : Nat :=
  entries.countP fun entry => !opened.contains entry.1

theorem closedCount_cons_le (entries : List (String × StaticType)) (opened : List String)
    (name : String) : closedCount entries (name :: opened) ≤ closedCount entries opened := by
  apply List.countP_mono_left
  intro entry _ h
  cases hc : opened.contains entry.1 with
  | false => rfl
  | true =>
    rw [List.contains_cons, hc, Bool.or_true] at h
    exact h

/-- Opening a known name leaves fewer names to open. -/
theorem closedCount_cons_lt {entries : List (String × StaticType)} {opened : List String}
    {name : String} {t : StaticType} (h : entries.lookup name = some t)
    (hn : opened.contains name = false) :
    closedCount entries (name :: opened) < closedCount entries opened := by
  induction entries with
  | nil => cases h
  | cons e rest ih =>
    obtain ⟨m, u⟩ := e
    by_cases hm : name = m
    · subst hm
      have before : closedCount ((name, u) :: rest) opened = closedCount rest opened + 1 := by
        unfold closedCount
        rw [List.countP_cons_of_pos]
        rw [hn]
        rfl
      have after : closedCount ((name, u) :: rest) (name :: opened)
          = closedCount rest (name :: opened) := by
        unfold closedCount
        rw [List.countP_cons_of_neg]
        rw [List.contains_cons, beq_self_eq_true, Bool.true_or]
        exact Bool.false_ne_true
      have := closedCount_cons_le rest opened name
      omega
    · have hne : (name == m) = false := beq_false_of_ne hm
      have hlt := ih (by rw [List.lookup_cons, hne] at h; exact h)
      have hne' : (m == name) = false := beq_false_of_ne fun e => hm e.symm
      unfold closedCount at hlt ⊢
      rw [List.countP_cons, List.countP_cons]
      rw [List.contains_cons, hne', Bool.false_or]
      omega

mutual

/-- Replace the references of a type. There is no result if a name is unknown. `opened` are the
names that are being replaced. -/
def evaluateIn (entries : List (String × StaticType)) (opened : List String) :
    StaticType → Option StaticType
  | .reference name =>
    if _hn : opened.contains name then some (.reference name)
    else
      match _h : entries.lookup name with
      | none => none
      | some target => evaluateIn entries (name :: opened) target
  | .schema c (some args) =>
    (evaluateAll entries opened args).map fun args => .schema c (some args)
  | .list item => (evaluateIn entries opened item).map .list
  | .dict key value => do
    let key ← evaluateIn entries opened key
    let value ← evaluateIn entries opened value
    return .dict key value
  | .tuple items => (evaluateAll entries opened items).map .tuple
  | .union members => (evaluateAll entries opened members).map .union
  | t => some t
termination_by t => (closedCount entries opened, sizeOf t)
decreasing_by
  all_goals first
    | exact Prod.Lex.left _ _ (closedCount_cons_lt _h (by simpa using _hn))
    | (apply Prod.Lex.right; simp +arith)

/-- Replace the references of types in order. -/
def evaluateAll (entries : List (String × StaticType)) (opened : List String) :
    List StaticType → Option (List StaticType)
  | [] => some []
  | t :: rest => do
    let t ← evaluateIn entries opened t
    let rest ← evaluateAll entries opened rest
    return t :: rest
termination_by ts => (closedCount entries opened, sizeOf ts)

end

section

variable (failing : String → Option Fault)

mutual

/-- The failure that replacing the references of a type runs into, if it gets that far: an unknown
name before ends the replacing without one. -/
def faultIn (entries : List (String × StaticType)) (opened : List String) :
    StaticType → Option Fault
  | .reference name =>
    if _hn : opened.contains name then none
    else
      match _h : entries.lookup name with
      | none => failing name
      | some target => faultIn entries (name :: opened) target
  | .schema _ (some args) => faultInAny entries opened args
  | .list item => faultIn entries opened item
  | .dict key value =>
    (faultIn entries opened key).or
      (if (evaluateIn entries opened key).isSome then faultIn entries opened value else none)
  | .tuple items => faultInAny entries opened items
  | .union members => faultInAny entries opened members
  | _ => none
termination_by t => (closedCount entries opened, sizeOf t)
decreasing_by
  all_goals first
    | exact Prod.Lex.left _ _ (closedCount_cons_lt _h (by simpa using _hn))
    | (apply Prod.Lex.right; simp +arith)

/-- The failure that replacing the references of types in order runs into. -/
def faultInAny (entries : List (String × StaticType)) (opened : List String) :
    List StaticType → Option Fault
  | [] => none
  | t :: rest =>
    (faultIn entries opened t).or
      (if (evaluateIn entries opened t).isSome then faultInAny entries opened rest else none)
termination_by ts => (closedCount entries opened, sizeOf ts)

end

end

/-- The namespace in which the references of a field are evaluated, if it has one. What was derived
can be used in all of them. -/
def spaceOf? (names : Names) (shape : ShapeId) (t : StaticType) : Option Space :=
  if t.isReference then names.bare shape else shape.space?

/-- The texts that stand for types in a field of a shape. -/
def known (names : Names) (shape : ShapeId) (t : StaticType) : List (String × StaticType) :=
  names.seenFrom (names.spaceOf? shape t)

/-- The type of a field of a shape with its references replaced. One with an unknown name can hold
nothing. -/
def evaluate (names : Names) (shape : ShapeId) (t : StaticType) : StaticType :=
  (evaluateIn (names.known shape t) [] t).getD .never

/-- The failure of looking a field of a shape up, if there is one. Without a namespace there are only
names that derivation has made, and these do not fail. -/
def fault? (names : Names) (shape : ShapeId) (t : StaticType) : Option Fault := do
  let space ← names.spaceOf? shape t
  faultIn (names.failing space (names.known shape t)) (names.known shape t) [] t

/-- A field of a shape when it is looked up. -/
def field (names : Names) (shape : ShapeId) (t : StaticType) : Except Failure StaticType :=
  match names.fault? shape t with
  | some fault => .error (.fault fault)
  | none => .ok (names.evaluate shape t)

/-- The parameter of a type at a position. A parameter that is itself a reference is looked up among
the derived types only. -/
def arg (names : Names) (t : StaticType) (position : Nat) : StaticType :=
  match t.args[position]? with
  | none => .never
  | some (.reference name) => (names.derived.lookup name).getD .never
  | some argument => argument

end Names

end Schemata
