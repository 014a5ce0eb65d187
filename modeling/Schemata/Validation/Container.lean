import Schemata.Plan.Basic
import Schemata.Validation.Leaf

/-!
# Checks of containers and alternatives

Each takes the checks of its parts. A part is checked as a value of its own, and the issues with all
parts are reported, each under the place of its part. A union reports issues only if no choice
accepts the value.
-/

namespace Schemata.Check

-- ---------------------------------------------------------------------------
-- Lists
-- ---------------------------------------------------------------------------

/-- Check values that stand at positions from `start` on. -/
def elements (check : Check) (start : Nat) : List Value → Standing → Verdict (List Value)
  | [], s => .accepted [] s
  | v :: rest, s =>
    ((check [] v s).under (.index start)).both s (elements check (start + 1) rest) List.cons

/-- Lists and tuples make a list. -/
def list (check : Check) : Check := fun _ v s =>
  match v with
  | .list items => (elements check 0 items s).map .list
  | .tuple items => (elements check 0 items (s.floor .lax)).map .list
  | _ => .refuse .listType v

-- ---------------------------------------------------------------------------
-- Dictionaries
-- ---------------------------------------------------------------------------

/-- The place of an entry. -/
def placeOfKey : Value → Place
  | .str name => .key name
  | .int n => if Leaf.fitsWord n then .index n else .key (toString n)
  | .bool b => .index (if b then 1 else 0)
  | v => .key v.shown

/-- Check the entries of a dictionary in order, on top of the entries made so far. -/
def entries (keys values : Check) :
    (made : List (Value × Value)) → List (Value × Value) → Standing →
      Verdict (List (Value × Value))
  | made, [], s => .accepted made s
  | made, (k, v) :: rest, s =>
    let place := placeOfKey k
    let key := ((keys [] k s).under (.key "[key]")).under place
    let entry := key.both s (fun s => (values [] v s).under place) Prod.mk
    match entry with
    | .accepted (k', v') s =>
      match k'.unhashable? with
      | some given => .failed (.unhashable given)
      | none => entries keys values (setEntry k' v' made) rest s
    | .refused issues =>
      match entries keys values made rest s with
      | .accepted _ _ => .refused issues
      | .refused more => .refused (issues ++ more)
      | .failed failure => .failed failure
    | .failed failure => .failed failure

def dict (keys values : Check) : Check := fun _ v s =>
  match v with
  | .dict given => (entries keys values [] given s).map .dict
  | _ => .refuse .dictType v

-- ---------------------------------------------------------------------------
-- Tuples
-- ---------------------------------------------------------------------------

/-- The check of one item of a tuple, with what stands for the item when it is missing. -/
structure ItemCheck where
  check : Check
  supply? : Option Supply

/-- The value of an item that is missing from `container`. -/
def ItemCheck.absent (item : ItemCheck) (position : Nat) (container : Value) (s : Standing) :
    Verdict Value :=
  match item.supply? with
  | some (.copy v) => .accepted v s
  | some .absence => (item.check [] .missing s).under (.index position)
  | none => .refused [(Issue.here .missing container).under (.index position)]

/-- Check items that stand at positions from `start` on. -/
def items (container : Value) (start : Nat) :
    List ItemCheck → List Value → Standing → Verdict (List Value)
  | [], _, s => .accepted [] s
  | item :: others, [], s =>
    (item.absent start container s).both s (items container (start + 1) others []) List.cons
  | item :: others, v :: rest, s =>
    ((item.check [] v s).under (.index start)).both s (items container (start + 1) others rest)
      List.cons

/-- Check a tuple of given values. One that is too long is refused for that reason alone. -/
def itemsOf (container : Value) (checks : List ItemCheck) (given : List Value) (s : Standing) :
    Verdict Value :=
  let checked := items container 0 checks given s
  if checks.length < given.length then
    match checked with
    | .failed failure => .failed failure
    | _ => .refuse (.tooLong checks.length given.length) container
  else checked.map .tuple

/-- Tuples and lists make a tuple. -/
def tuple (checks : List ItemCheck) : Check := fun _ v s =>
  match v with
  | .tuple given => itemsOf v checks given s
  | .list given => itemsOf v checks given (s.floor .lax)
  | _ => .refuse .tupleType v

-- ---------------------------------------------------------------------------
-- Objects
-- ---------------------------------------------------------------------------

/-- The check of one property. -/
structure FieldCheck where
  name : String
  required : Bool
  check : Check
  supply? : Option Supply

/-- Check one property of an object with the given entries: its value, if it has one, and whether it
was given. -/
def FieldCheck.run (field : FieldCheck) (container : Value) (given : List (Value × Value))
    (s : Standing) : Verdict (Option Value × Nat) :=
  match entry? field.name given with
  | some v => ((field.check [] v s).under (.key field.name)).map fun result => (some result, 1)
  | none =>
    match field.supply? with
    | some (.copy v) => .accepted (some v, 0) s
    | some .absence =>
      ((field.check [] .missing s).under (.key field.name)).map fun result => (some result, 0)
    | none =>
      if field.required then .refused [(Issue.here .missing container).under (.key field.name)]
      else .accepted (none, 0) s

/-- Put the outcome of one property in front of those of the later ones. -/
def consField (name : String) (field : Option Value × Nat) (rest : List (Value × Value) × Nat) :
    List (Value × Value) × Nat :=
  match field.1 with
  | some v => ((.str name, v) :: rest.1, field.2 + rest.2)
  | none => (rest.1, field.2 + rest.2)

/-- Check the properties of an object in order: their values, and how many of them were given. -/
def fields (container : Value) (given : List (Value × Value)) :
    List FieldCheck → Standing → Verdict (List (Value × Value) × Nat)
  | [], s => .accepted ([], 0) s
  | field :: rest, s =>
    (field.run container given s).both s (fields container given rest) (consField field.name)

/-- Entries outside the shape are dropped. -/
def object (checks : List FieldCheck) : Check := fun _ v s =>
  match v with
  | .dict given =>
    (fields v given checks s).andThen fun (made, count) s =>
      .accepted (.dict made) (s.addFields count)
  | _ => .refuse .dictType v

-- ---------------------------------------------------------------------------
-- Alternatives
-- ---------------------------------------------------------------------------

/-- A choice of a union. -/
structure ChoiceCheck where
  label : Unit → String
  check : Check

/-- Try choices in order. `best` is the best one that has accepted the value so far, and `issues`
are those of the choices tried before the first that did. -/
def tryChoices (entered : List Nat) (v : Value) (s : Standing) :
    (best : Option (Value × Standing)) → (issues : List Issue) → List ChoiceCheck → Verdict Value
  | some (result, standing), _, [] => .accepted result (s.afterUnion standing)
  | none, issues, [] => .refused issues
  | best, issues, choice :: rest =>
    match choice.check entered v .fresh with
    | .failed failure => .failed failure
    | .refused more =>
      let labelled :=
        if best.isNone then issues ++ more.map (·.under (.key (choice.label ()))) else issues
      tryChoices entered v s best labelled rest
    | .accepted result standing =>
      if standing.isPerfect then .accepted result standing
      else
        let better := match best with
          | none => true
          | some (_, known) => known.isBetter standing
        tryChoices entered v s (if better then some (result, standing) else best) issues rest

/-- A single choice stands for itself. Of several, the first that fits perfectly is taken, otherwise
the best one. -/
def union : List ChoiceCheck → Check
  | [choice] => choice.check
  | choices => fun entered v s => tryChoices entered v s none [] choices

-- ---------------------------------------------------------------------------
-- Wrappers
-- ---------------------------------------------------------------------------

def nullable (check : Check) : Check := fun entered v s =>
  match v with
  | .none => .accepted .none s
  | _ => check entered v s

/-- Absence gives a fixed result, and everything else is checked. -/
def ifMissing (result : Value) (check : Check) : Check := fun entered v s =>
  if v.isMissing then .accepted result s else check entered v s

/-- One check after the other. The second one sees a value of its own, unless the first one left the
value as it was. -/
def chain (first second : Check) : Check := fun entered v s =>
  (first entered v s).andThen fun result s =>
    second (if result.equalTyped v then entered else []) result s

/-- Apply a function. -/
def call (function : Function) : Check := fun _ v s =>
  match function.apply v with
  | .ok result => .accepted result s
  | .error (.value text) => .refuse (.valueFault text) v
  | .error (.assertion text) => .refuse (.assertionFault text) v
  | .error fault => .failed (.fault fault)

/-- The value fits as loosely as possible. -/
def anything : Check := fun _ v s =>
  .accepted v (s.floor .lax)

end Schemata.Check
