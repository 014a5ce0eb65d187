import Schemata.Proofs.Mirror.View
import Schemata.Proofs.Path.Join
import Schemata.Proofs.Traversal.Composition

/-!
# Paths through types

A path through a type leads to a type, which is the empty one where the path does not fit. It fails
only where it looks up a field of a shape with a reference whose evaluation fails, and not for want of
a name. Whether a path got stuck or arrived at the empty type makes no difference to where a longer
path leads.
-/

namespace Schemata

@[simp] theorem Failure.isPathFailure_fault (fault : Fault) :
    (Failure.fault fault).isPathFailure = false := by
  cases fault <;> rfl

@[simp] theorem Failure.isPathFailure_along (path : String) (failure : Failure) :
    (failure.along path).isPathFailure = failure.isPathFailure := by
  cases failure <;> rfl

/-- A failure that is no obstacle of a path does not mention the path. -/
theorem Failure.along_of_not_isPathFailure {failure : Failure} (h : failure.isPathFailure = false)
    (path : String) : failure.along path = failure := by
  cases failure with
  | resolution => cases h
  | _ => rfl

namespace Names

variable {names : Names} {limit : Nat} {path p q r : String} {t u m : StaticType} {id : ShapeId}
  {fields : List (String × StaticType)} {segment : Segment} {ps qs rest segments : List Segment}
  {field : StaticType} {name : String} {failure : Failure} {fault : Fault}

/-! ## Steps -/

/-- Unwrapping a type fails only for the number of wrappers. -/
theorem unwrapWithin_error {exceeded : Failure} {budget : Nat}
    (h : (names.view.unwrapWithin exceeded budget t).outcome = .error failure) :
    failure = exceeded := by
  induction budget generalizing t with
  | zero => cases transparent : t.kind.isTransparent <;> simp_all
  | succ budget ih =>
    cases transparent : t.kind.isTransparent with
    | false => simp [transparent] at h
    | true => exact ih (by simpa [transparent] using h)

/-- Reading a property fails for the fault of the field, if its name is known. -/
theorem property?_error (h : names.property? t name = .error failure) :
    ∃ id shapeName fields optional field fault, failure = .fault fault ∧
      names.arg t 0 = .shape id shapeName fields optional ∧
      fields.lookup name = some field ∧ names.fault? id field = some fault := by
  unfold property? at h
  split at h
  · next id shapeName fields optional shape =>
    unfold fieldOf? at h
    split at h
    · next field found =>
      unfold Names.field at h
      split at h
      · next fault faulty =>
        exact ⟨id, shapeName, fields, optional, field, fault, (Except.error.inj h).symm, shape, found,
          faulty⟩
      · cases h
    · cases h
  · cases h

theorem property?_of_fault? {shapeName : String} {optional : List String}
    (shape : names.arg t 0 = .shape id shapeName fields optional)
    (found : fields.lookup name = some field) (faulty : names.fault? id field = some fault) :
    names.property? t name = .error (.fault fault) := by
  simp only [property?, shape, fieldOf?, found, Names.field, faulty]
  rfl

/-- A step from an unwrapped type fails for the path, or for the field that it looks up. -/
theorem child_error (h : names.view.child path t segment = .error failure) :
    (∃ obstacle, failure = .resolution path obstacle) ∨
      ∃ name, segment = .property name ∧ t.kind = .object ∧
        names.property? t name = .error failure := by
  -- Only a property is looked up with the names of its shape. The other children stand in the type,
  -- so that all that can be wrong is the path.
  cases segment with
  | property name =>
    simp only [View.child] at h
    split at h
    · next object =>
      cases looked : names.property? t name with
      | error failure' =>
        have : names.view.property? t name = .error failure' := looked
        rw [this] at h
        obtain rfl := Except.error.inj h
        exact .inr ⟨name, rfl, object, looked⟩
      | ok found =>
        have : names.view.property? t name = .ok found := looked
        rw [this] at h
        cases found with
        | some => cases h
        | none => exact .inl ⟨_, (Except.error.inj h).symm⟩
    · exact .inl ⟨_, (Except.error.inj h).symm⟩
  | element =>
    simp only [View.child] at h
    split at h
    · cases h
    · cases h
    · exact .inl ⟨_, (Except.error.inj h).symm⟩
  | index n =>
    have selected {kind : Kind} {children : List StaticType}
        (h : View.child.select path n kind children = .error failure) :
        ∃ obstacle, failure = .resolution path obstacle := by
      unfold View.child.select at h
      split at h
      · cases h
      · exact ⟨_, (Except.error.inj h).symm⟩
    simp only [View.child] at h
    split at h
    · exact .inl (selected h)
    · exact .inl (selected h)
    · exact .inl ⟨_, (Except.error.inj h).symm⟩

/-- How a step comes out does not depend on the path, but for its text in failures. -/
theorem pathless (names : Names) : names.view.Pathless where
  inner _ _ _ := rfl
  child path path' t segment := by
    cases segment with
    | property name =>
      simp only [View.child]
      split
      · cases looked : names.view.property? t name with
        | error failure =>
          -- the fault of a field does not mention the path
          obtain ⟨_, _, _, _, _, _, rfl, _⟩ := property?_error looked
          rfl
        | ok found => cases found <;> rfl
      · rfl
    | element =>
      simp only [View.child]
      split <;> rfl
    | index n =>
      have selected (kind : Kind) (children : List StaticType) :
          View.child.select path' n kind children
            = (View.child.select path n kind children).mapError (.along path') := by
        unfold View.child.select
        split <;> rfl
      simp only [View.child]
      split
      · exact selected .tuple t.args
      · exact selected .union t.args
      · rfl

/-! ## Looking fields up on the way -/

/-- Walking along segments under the path text `path` comes to look up a field of a shape. -/
inductive LooksUp (names : Names) (limit : Nat) (path : String) :
    StaticType → List Segment → ShapeId → StaticType → Prop
  | here {t u : StaticType} {id : ShapeId} {shapeName name : String}
    {fields : List (String × StaticType)} {optional : List String} {field : StaticType}
    {rest : List Segment} : (names.view.unwrap limit path t).outcome = .ok u → u.kind = .object →
    names.arg u 0 = .shape id shapeName fields optional → fields.lookup name = some field →
    LooksUp names limit path t (.property name :: rest) id field
  | later {t m : StaticType} {segment : Segment} {rest : List Segment} {id : ShapeId}
    {field : StaticType} : (names.view.step limit path t segment).outcome = .ok m →
    LooksUp names limit path m rest id field → LooksUp names limit path t (segment :: rest) id field

/-- A walk fails where it looks up a field that has a fault. -/
theorem LooksUp.outcome_walk (h : names.LooksUp limit path t segments id field)
    (faulty : names.fault? id field = some fault) :
    (names.view.walk limit path t segments).outcome = .error (.fault fault) := by
  induction h with
  | @here t u id shapeName name fields optional field rest unwrapped object shape found =>
    have child : names.view.child path u (.property name) = .error (.fault fault) := by
      have looked : names.view.property? u name = .error (.fault fault) :=
        property?_of_fault? shape found faulty
      have object' : names.view.kind u = .object := object
      rw [View.child, if_pos object', looked]
      rfl
    simp [unwrapped, child]
  | later step _ ih =>
    rw [View.walk_cons, Trail.outcome_bind, step]
    exact ih faulty

theorem step_error (h : (names.view.step limit path t segment).outcome = .error failure)
    (rest : List Segment) :
    failure.isPathFailure = true ∨ ∃ id field fault, failure = .fault fault ∧
      names.LooksUp limit path t (segment :: rest) id field ∧ names.fault? id field = some fault := by
  rw [View.outcome_step] at h
  cases unwrapped : (names.view.unwrap limit path t).outcome with
  | error exceeded =>
    rw [unwrapped] at h
    obtain rfl := Except.error.inj h
    exact .inl (unwrapWithin_error unwrapped ▸ rfl)
  | ok u =>
    rw [unwrapped] at h
    rcases child_error h with ⟨obstacle, rfl⟩ | ⟨name, rfl, object, looked⟩
    · exact .inl rfl
    · obtain ⟨id, _, _, _, field, fault, rfl, shape, found, faulty⟩ := property?_error looked
      exact .inr ⟨id, field, fault, rfl, .here unwrapped object shape found, faulty⟩

/-- A walk that fails, and not for the path, has looked up a field that has a fault. -/
theorem walk_error (h : (names.view.walk limit path t segments).outcome = .error failure) :
    failure.isPathFailure = true ∨ ∃ id field fault, failure = .fault fault ∧
      names.LooksUp limit path t segments id field ∧ names.fault? id field = some fault := by
  induction segments generalizing t with
  | nil => cases h
  | cons segment rest ih =>
    rw [View.walk_cons, Trail.outcome_bind] at h
    cases step : (names.view.step limit path t segment).outcome with
    | error failure' =>
      rw [step] at h
      -- The first step that fails decides: what was looked up before it has no fault.
      obtain rfl := Except.error.inj h
      exact step_error step rest
    | ok m =>
      rw [step] at h
      rcases ih h with pathFailure | ⟨id, field, fault, failed, looks, faulty⟩
      · exact .inl pathFailure
      · exact .inr ⟨id, field, fault, failed, .later step looks, faulty⟩

/-! ## Types at paths -/

theorem reached_mapError_along (x : Except Failure StaticType) (path : String) :
    reached (x.mapError (.along path)) = reached x := by
  cases x with
  | ok => rfl
  | error failure =>
    simp only [Except.mapError, reached, failure.isPathFailure_along]
    split
    · rfl
    · next other => rw [failure.along_of_not_isPathFailure (by simpa using other)]

theorem typeAt_of_parse (h : PathArgument.parse p = .ok segments) :
    names.typeAt limit t (.text p) = reached (names.view.walk limit p t segments).outcome := by
  rw [names.typeAt_of_coerce_ok (Path.argument_coerce_text h), View.walkPieces_map_segment]

/-- Nothing is found in the empty type. -/
theorem reached_walk_never (names : Names) (limit : Nat) (path : String)
    (segments : List Segment) :
    reached (names.view.walk limit path .never segments).outcome = .ok .never := by
  cases segments with
  | nil => rfl
  | cons segment rest =>
    have step : ∃ obstacle, (names.view.step limit path .never segment).outcome
        = .error (.resolution path obstacle) := by
      have unwrapped : (names.view.unwrap limit path .never).outcome = .ok .never := by
        rw [View.unwrap]
        cases limit <;> rfl
      rw [View.outcome_step, unwrapped]
      cases segment with
      | property name => exact ⟨.notAnObject name .leaf, rfl⟩
      | element => exact ⟨.notIndexable none .leaf, rfl⟩
      | index n => exact ⟨.notIndexable (some n) .leaf, rfl⟩
    obtain ⟨obstacle, step⟩ := step
    rw [View.walk_cons, Trail.outcome_bind, step]
    rfl

/-- Following segments and then more of them, each under whatever path text. -/
theorem reached_walk_append (names : Names) (limit : Nat) (p q r : String) (t : StaticType)
    (ps qs : List Segment) :
    reached (names.view.walk limit r t (ps ++ qs)).outcome
      = reached (names.view.walk limit p t ps).outcome >>= fun m =>
          reached (names.view.walk limit q m qs).outcome := by
  rw [View.walk_append, names.pathless.walk_along _ p r t ps, Trail.outcome_bind,
    Trail.outcome_mapFailure]
  cases walked : (names.view.walk limit p t ps).outcome with
  | error failure =>
    simp only [Except.mapError]
    -- a failure for the path is read as the empty type, any other one ends both sides
    cases pathFailure : failure.isPathFailure with
    | true =>
      simp only [reached, failure.isPathFailure_along, pathFailure, if_true]
      exact (reached_walk_never names limit q qs).symm
    | false =>
      rw [failure.along_of_not_isPathFailure pathFailure]
      simp only [reached, pathFailure]
      rfl
  | ok m =>
    simp only [Except.mapError, names.pathless.walk_along _ q r]
    exact reached_mapError_along _ r

/-- A path fails just where it looks up a field that has a fault. -/
theorem typeAt_error_iff (short : Path.ShortBrackets p.toList) :
    names.typeAt limit t (.text p) = .error failure ↔
      ∃ segments id field fault, PathArgument.parse p = .ok segments ∧
        names.LooksUp limit p t segments id field ∧ names.fault? id field = some fault ∧
        failure = .fault fault := by
  constructor
  · intro fails
    cases parsed : PathArgument.parse p with
    | error defect =>
      have coerced : PathArgument.coerce (.text p) = .error defect := by
        rw [PathArgument.coerce, parsed]
        rfl
      rw [names.typeAt_of_coerce_error coerced, reached,
        if_pos (Path.isPathFailure_of_parse_error short parsed)] at fails
      cases fails
    | ok segments =>
      rw [typeAt_of_parse parsed] at fails
      cases walked : (names.view.walk limit p t segments).outcome with
      | ok m =>
        rw [walked] at fails
        cases fails
      | error failure' =>
        rw [walked, reached] at fails
        split at fails
        · cases fails
        · next other =>
          obtain rfl := Except.error.inj fails
          rcases walk_error walked with pathFailure | ⟨id, field, fault, failed, looks, faulty⟩
          · exact absurd pathFailure other
          · exact ⟨segments, id, field, fault, rfl, looks, faulty, failed⟩
  · rintro ⟨segments, id, field, fault, parsed, looks, faulty, rfl⟩
    rw [typeAt_of_parse parsed, looks.outcome_walk faulty]
    simp [reached]

/-- Path text whose brackets are not too long leads to a type, unless it looks up a field on the way
that has a reference whose evaluation fails, and not for want of a name: it fails as the first such
field does and for nothing else. Joined text leads to where its second part leads from the type that
its first part leads to, and it fails as the first of the two that fails. So a path that leads to the
empty type leads there however it goes on. -/
theorem typeAt_join (names : Names) (limit : Nat) (t : StaticType) {p : String}
    (short : Path.ShortBrackets p.toList) :
    let found t p := names.typeAt limit t (.text p)
    (∀ failure, found t p = .error failure ↔
      ∃ segments id field fault, PathArgument.parse p = .ok segments ∧
        names.LooksUp limit p t segments id field ∧ names.fault? id field = some fault ∧
        failure = .fault fault) ∧
    (∀ q ps qs, PathArgument.parse p = .ok ps → PathArgument.parse q = .ok qs →
      q.toList.head? ≠ some '.' →
        PathArgument.parse (Path.join p q) = .ok (ps ++ qs) ∧
        found t (Path.join p q) = found t p >>= fun m => found m q) ∧
    ∀ r ps rest, PathArgument.parse p = .ok ps → PathArgument.parse r = .ok (ps ++ rest) →
      found t p = .ok .never → found t r = .ok .never := by
  intro found
  refine ⟨fun failure => typeAt_error_iff short, ?_, ?_⟩
  · intro q ps qs hp hq point
    have joined : PathArgument.parse (Path.join p q) = .ok (ps ++ qs) :=
      Path.argument_parse_ok_iff.mpr (Path.parse_join (Path.argument_parse_ok_iff.mp hp)
        (Path.argument_parse_ok_iff.mp hq) point)
    refine ⟨joined, ?_⟩
    have seconds : (fun m => names.typeAt limit m (.text q))
        = fun m => reached (names.view.walk limit q m qs).outcome :=
      funext fun m => typeAt_of_parse hq
    simp only [found, seconds]
    rw [typeAt_of_parse joined, typeAt_of_parse hp]
    exact reached_walk_append names limit p q _ t ps qs
  · intro r ps rest hp hr never
    simp only [found] at never ⊢
    rw [typeAt_of_parse hp] at never
    rw [typeAt_of_parse hr, reached_walk_append names limit p r r, never]
    exact reached_walk_never names limit r rest

/-- The name `Leaf` stands for texts. -/
def leafNames : Names :=
  { Names.empty with declared := [(0, "Leaf", .schema .string none)] }

/-- An object with leaves, a property that asks `Leaf` for a member, and one that asks a name that
stands for nothing. -/
def rootType : StaticType :=
  .schema .object (some [.shape (.declared 0 0) "Root"
    [("leaves", .schema .array (some [.reference "Leaf"])),
      ("member", .schema .lazy (some [.reference "Leaf.missing"])),
      ("unknown", .schema .lazy (some [.reference "Other.missing"]))] []])

/-- Behind the leaves stands a text, and nothing stands behind that. -/
theorem typeAt_join_leaves :
    Path.ShortBrackets "leaves".toList ∧
    PathArgument.parse "leaves" = .ok [.property "leaves"] ∧
    PathArgument.parse "[]" = .ok [.element] ∧ "[]".toList.head? ≠ some '.' ∧
    leafNames.typeAt 64 rootType (.text "leaves[]") = .ok (.schema .string none) ∧
    Path.ShortBrackets "leaves[].x".toList ∧
    PathArgument.parse "leaves[].x" = .ok [.property "leaves", .element, .property "x"] ∧
    PathArgument.parse "leaves[].x.y"
      = .ok ([.property "leaves", .element, .property "x"] ++ [.property "y"]) ∧
    leafNames.typeAt 64 rootType (.text "leaves[].x") = .ok .never ∧
    leafNames.typeAt 64 rootType (.text "leaves[].x.y") = .ok .never := by
  have short : Path.ShortBrackets "leaves".toList := .of_length (by decide)
  have hp : PathArgument.parse "leaves" = .ok [.property "leaves"] := by cbv
  have hq : PathArgument.parse "[]" = .ok [.element] := by cbv
  have point : "[]".toList.head? ≠ some '.' := by decide
  have joined : Path.join "leaves" "[]" = "leaves[]" := by decide
  have first : leafNames.typeAt 64 rootType (.text "leaves")
      = .ok (.schema .array (some [.schema .string none])) := by cbv
  have second : leafNames.typeAt 64 (.schema .array (some [.schema .string none])) (.text "[]")
      = .ok (.schema .string none) := by cbv
  have short' : Path.ShortBrackets "leaves[].x".toList := .of_length (by decide)
  have stuck : PathArgument.parse "leaves[].x"
      = .ok [.property "leaves", .element, .property "x"] := by cbv
  have longer : PathArgument.parse "leaves[].x.y"
      = .ok ([.property "leaves", .element, .property "x"] ++ [.property "y"]) := by cbv
  have never : leafNames.typeAt 64 rootType (.text "leaves[].x") = .ok .never := by cbv
  refine ⟨short, hp, hq, point, ?_, short', stuck, longer, never, ?_⟩
  · have composed := ((typeAt_join leafNames 64 rootType short).2.1 _ _ _ hp hq point).2
    simp only [joined, first] at composed
    exact composed.trans second
  · exact (typeAt_join leafNames 64 rootType short').2.2 _ _ _ stuck longer never

/-- A property whose reference cannot be evaluated for want of its name leads to the empty type, but
one that asks a known name for a member makes the path fail. -/
theorem typeAt_member_fails :
    leafNames.typeAt 64 rootType (.text "unknown") = .ok .never ∧
    leafNames.typeAt 64 rootType (.text "member")
      = .error (.fault
        (.other "AttributeError" "type object 'StringSchema' has no attribute 'missing'")) := by
  constructor <;> cbv

end Names

end Schemata
