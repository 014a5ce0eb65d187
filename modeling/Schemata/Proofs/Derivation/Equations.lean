import Schemata.Proofs.Derivation.Registry
import Schemata.Proofs.Schema.Graph

/-!
# Equations of derivation

What derivation does to the registry, case by case: schemas without children, schemas whose children
are derived in order, objects, and lazy schemas with and without a name.
-/

namespace Schemata

/-! ## Leaves -/

@[simp] theorem Leaf.schemaClass?_staticType (l : Leaf) :
    l.staticType.schemaClass? = some l.schemaClass := by
  cases l <;> rfl

theorem StaticType.exists_literalOf (values : List Value) :
    ∃ members, literalOf values = literal members := by
  unfold literalOf
  split <;> exact ⟨_, rfl⟩

theorem StaticType.exists_literalOfValue (v : Value) :
    ∃ members, literalOfValue v = literal members := by
  unfold literalOfValue
  split <;> exact exists_literalOf _

/-- The type of a leaf is its class, bare or with one parameter that has no parts. -/
theorem Leaf.staticType_cases (l : Leaf) :
    l.staticType = .schema l.schemaClass none ∨
      (∃ members, l.staticType = .schema l.schemaClass (some [.literal members])) ∨
        l.staticType = .schema l.schemaClass (some [.any]) := by
  cases l with
  | literal value =>
    obtain ⟨members, h⟩ := StaticType.exists_literalOfValue value
    exact .inr (.inl ⟨members, by rw [staticType, h]; rfl⟩)
  | enum values =>
    obtain ⟨members, h⟩ := StaticType.exists_literalOf values
    exact .inr (.inl ⟨members, by rw [staticType, h]; rfl⟩)
  | transform => exact .inr (.inr rfl)
  | _ => exact .inl rfl

/-- The type of a leaf holds no references. -/
@[simp] theorem Leaf.evaluateIn_staticType (entries : List (String × StaticType)) (opened : List String)
    (l : Leaf) : Names.evaluateIn entries opened l.staticType = some l.staticType := by
  rcases l.staticType_cases with h | ⟨members, h⟩ | h <;>
    simp [h, Names.evaluateIn, Names.evaluateAll]

/-! ## Runs -/

namespace Registry

variable (r : Registry)

@[simp] theorem exec_takeShape : takeShape.exec r = (.ok r.shapeCount, r.withShape) := rfl

@[simp] theorem exec_takeName (id : NodeId) :
    (takeName id).exec r = (.ok (lazyName r.lazyCount), r.withName id) := rfl

@[simp] theorem exec_forget (id : NodeId) : (forget id).exec r = (.ok (), r.without id) := rfl

@[simp] theorem exec_register (n : String) (t : StaticType) :
    (register n t).exec r = (.ok (), r.withType n t) := rfl

@[simp] theorem exec_targetOf (scope : Scope) (id : NodeId) :
    (targetOf scope id).exec r = (scope.target id, r.withAsked id) := by
  cases h : scope.target id <;> simp [targetOf, h, withAsked]

end Registry

namespace Scope

open Registry

variable (scope : Scope) {depth : Nat} {r : Registry}

@[simp] theorem typeOf_leaf (id : NodeId) (l : Leaf) :
    scope.typeOf depth (.leaf id l) = pure l.staticType := by
  rw [typeOf]

/-- The children are derived in order and become the parameters. -/
theorem typeOf_composite {s : Schema} (hs : s.isComposite = true) :
    scope.typeOf depth s = do
      let ts ← scope.typesOf depth s.children
      return .schema s.schemaClass (some ts) := by
  cases s with
  | leaf | object | lazy => cases hs
  | tuple | union => rw [typeOf]; rfl
  | array | record | wrapper | pipe =>
    rw [typeOf]
    simp [Schema.children, Schema.schemaClass, typesOf]

theorem typeOfShape_eq (shape : List (String × Schema)) :
    scope.typeOfShape depth shape = do
      let ts ← scope.typesOf depth (shape.map (·.2))
      return (shape.map (·.1)).zip ts := by
  induction shape with
  | nil => simp [typeOfShape, typesOf]
  | cons property shape ih =>
    obtain ⟨name, s⟩ := property
    simp [typeOfShape, typesOf, ih]

/-- A shape gets its number before the properties are derived. -/
theorem typeOf_object (id : NodeId) (shape : List (String × Schema)) :
    scope.typeOf depth (.object id shape) = do
      let n ← takeShape
      let ts ← scope.typesOf depth (shape.map (·.2))
      return .schema .object (some [.shape (.derived n) (Registry.shapeName n)
        ((shape.map (·.1)).zip ts) []]) := by
  rw [typeOf]
  simp [typeOfShape_eq]

/-- A lazy schema that has a name is not looked behind. -/
theorem exec_typeOf_named {id : NodeId} {n : String} (h : r.Named id n) :
    (scope.typeOf depth (.lazy id)).exec r = (.ok (.schema .lazy (some [.reference n])), r) := by
  unfold Named at h
  cases depth <;> simp [typeOf, h]

/-- What deriving a lazy schema comes to once the type of its target was sought. -/
def closeLazy (id : NodeId) (n : String) : Except Failure StaticType × Registry →
    Except Failure StaticType × Registry
  | (.ok t, r) => (.ok (.schema .lazy (some [.reference n])), r.withType n t)
  | (.error failure, r) => (.error failure, r.without id)

/-- A lazy schema without a name gets one, and loses it again if its target has no type. -/
theorem exec_typeOf_unnamed {id : NodeId} (h : ¬ r.IsNamed id) :
    (scope.typeOf (depth + 1) (.lazy id)).exec r =
      closeLazy id (lazyName r.lazyCount)
        (match scope.target id with
        | .ok s => (scope.typeOf depth s).exec ((r.withName id).withAsked id)
        | .error failure => (.error failure, (r.withName id).withAsked id)) := by
  rw [not_isNamed_iff] at h
  cases htarget : scope.target id with
  | error failure => simp [typeOf, h, htarget, closeLazy]
  | ok s =>
    rcases hs : (scope.typeOf depth s).exec ((r.withName id).withAsked id) with ⟨_ | _, r'⟩ <;>
      simp [typeOf, h, htarget, hs, closeLazy]

end Scope

end Schemata
