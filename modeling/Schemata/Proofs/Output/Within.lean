import Schemata.Proofs.Mirror.View
import Schemata.Proofs.Output.Grafts
import Schemata.Proofs.Traversal.Lockstep

/-!
# Types made of shapes

Finitely many shapes with different names, which use no other shapes. Following parameters, fields and
paths from a type that is made of them leads to types that are made of them.
-/

namespace Schemata

/-- Shapes with their names and fields. -/
abbrev Shapes := List (ShapeId × String × List (String × StaticType))

namespace Shapes

/-- The shapes of objects in a type are among `shapes`. The parameters of leaves are finished types,
in which no outputs of objects stand. -/
inductive Within (shapes : Shapes) : StaticType → Prop
  | leaf {c : SchemaClass} {args : List StaticType} : c.kind = .leaf →
    (∀ a ∈ args, a.joints = []) → Within shapes (.schema c (some args))
  | node {c : SchemaClass} {args : List StaticType} : c.kind ≠ .leaf →
    (∀ a ∈ args, Within shapes a) → Within shapes (.schema c (some args))
  | bare {c : SchemaClass} : Within shapes (.schema c none)
  | shape {id : ShapeId} {name : String} {fields : List (String × StaticType)}
      {optional : List String} : shapes.lookup id = some (name, fields) →
    Within shapes (.shape id name fields optional)
  | other {t : StaticType} : t.schemaClass? = none →
    (∀ id name fields optional, t ≠ .shape id name fields optional) → Within shapes t

/-- Shapes with different names that need no other shapes: what a name or a field stands for is made
of them. A field whose references are replaced has no more references in the parameters of leaves. -/
structure Closed (shapes : Shapes) (names : Names) : Prop where
  distinct {id id' : ShapeId} {name : String} {fields fields' : List (String × StaticType)} :
    shapes.lookup id = some (name, fields) → shapes.lookup id' = some (name, fields') → id = id'
  target {name : String} {t : StaticType} : names.derived.lookup name = some t → shapes.Within t
  field {id : ShapeId} {name key : String} {fields : List (String × StaticType)} {t : StaticType} :
    shapes.lookup id = some (name, fields) → (key, t) ∈ fields → shapes.Within (names.evaluate id t)

variable {shapes : Shapes} {names : Names} {limit : Nat}

theorem Within.never : shapes.Within .never :=
  .other rfl (by rintro _ _ _ _ ⟨⟩)

theorem Within.reference (name : String) : shapes.Within (.reference name) :=
  .other rfl (by rintro _ _ _ _ ⟨⟩)

theorem Within.args {c : SchemaClass} {args : List StaticType} (hc : c.kind ≠ .leaf)
    (h : shapes.Within (.schema c (some args))) : ∀ a ∈ args, shapes.Within a := by
  cases h with
  | leaf hleaf => exact absurd hleaf hc
  | node _ h => exact h
  | other h => cases h

theorem Within.joints_of_leaf {c : SchemaClass} {args : List StaticType} (hc : c.kind = .leaf)
    (h : shapes.Within (.schema c (some args))) : ∀ a ∈ args, a.joints = [] := by
  cases h with
  | leaf _ h => exact h
  | node hnode => exact absurd hc hnode
  | other h => cases h

theorem Closed.derived (closed : shapes.Closed names) (name : String) :
    shapes.Within ((names.derived.lookup name).getD .never) := by
  cases h : names.derived.lookup name with
  | none => exact .never
  | some t => exact closed.target h

/-- The parameters of schemas are made of the same shapes. -/
theorem Within.arg (closed : shapes.Closed names) {c : SchemaClass}
    {args : Option (List StaticType)} (hc : c.kind ≠ .leaf) (h : shapes.Within (.schema c args))
    (position : Nat) : shapes.Within (names.arg (.schema c args) position) := by
  unfold Names.arg
  cases args with
  | none => exact .never
  | some args =>
    cases found : args[position]? with
    | none =>
      simp only [StaticType.args, found]
      exact .never
    | some a =>
      simp only [StaticType.args, found]
      split
      · next absent => cases absent
      · exact closed.derived _
      · next argument present =>
        obtain rfl := Option.some.inj present
        exact h.args hc _ (List.mem_of_getElem? found)

theorem Within.shape_lookup {id : ShapeId} {name : String} {fields : List (String × StaticType)}
    {optional : List String} (h : shapes.Within (.shape id name fields optional)) :
    shapes.lookup id = some (name, fields) := by
  cases h with
  | shape h => exact h
  | other _ h => exact absurd rfl (h _ _ _ _)

/-! ## Types at paths -/

/-- What has children is a schema type, and no leaf. -/
theorem exists_args_of_kind {t : StaticType} (h : t.kind ≠ .leaf) :
    ∃ c args, t = .schema c args ∧ c.kind ≠ .leaf := by
  cases t with
  | schema c args => exact ⟨c, args, rfl, h⟩
  | _ => exact absurd rfl h

theorem Within.child (closed : shapes.Closed names) {t : StaticType} (h : shapes.Within t)
    (ht : t.kind ≠ .leaf) (position : Nat) : shapes.Within (names.arg t position) := by
  obtain ⟨c, args, rfl, hc⟩ := exists_args_of_kind ht
  exact h.arg closed hc position

theorem Within.children {t : StaticType} (h : shapes.Within t) (ht : t.kind ≠ .leaf) :
    ∀ a ∈ t.args, shapes.Within a := by
  obtain ⟨c, _ | args, rfl, hc⟩ := exists_args_of_kind ht
  · exact fun _ ha => absurd ha List.not_mem_nil
  · exact h.args hc

/-- A property is looked up in a shape that is among `shapes`. -/
theorem Closed.property (closed : shapes.Closed names) {t u : StaticType} (h : shapes.Within t)
    (ht : t.kind ≠ .leaf) {name : String} (hu : names.property? t name = .ok (some u)) :
    shapes.Within u := by
  have within := h.child closed ht 0
  unfold Names.property? at hu
  split at hu
  · next id shapeName fields optional shape =>
    rw [shape] at within
    unfold Names.fieldOf? at hu
    cases found : fields.lookup name with
    | none =>
      rw [found] at hu
      cases hu
    | some field =>
      simp only [found] at hu
      cases looked : names.field id field with
      | error failure =>
        rw [looked] at hu
        cases hu
      | ok v =>
        rw [looked] at hu
        cases hu
        rw [Names.evaluate_of_field looked]
        exact closed.field within.shape_lookup (mem_of_lookup found)
  · cases hu

/-- Steps through types lead to types that are made of the same shapes. -/
theorem Closed.lockstep (closed : shapes.Closed names) :
    names.view.Lockstep names.view fun s t => s = t ∧ shapes.Within t where
  kind := by
    rintro t _ ⟨rfl, _⟩
    rfl
  inner := by
    rintro t _ ⟨rfl, h⟩ transparent
    have ht : t.kind ≠ .leaf := by
      intro leaf
      simp only [Names.view, leaf] at transparent
      cases transparent
    refine .ok ⟨rfl, ?_⟩
    unfold Names.innerOf
    split
    · exact h.child closed ht 1
    · exact h.child closed ht 0
  property := by
    rintro t _ name ⟨rfl, h⟩ object
    have ht : t.kind ≠ .leaf := ne_of_eq_of_ne object (by rintro ⟨⟩)
    have within {u : StaticType} (hu : names.property? t name = .ok (some u)) : shapes.Within u :=
      closed.property h ht hu
    change Related _ (names.property? t name) (names.property? t name)
    generalize names.property? t name = looked at within
    match looked with
    | .error failure => exact .error failure
    | .ok none => exact .ok .none
    | .ok (some u) => exact .ok (.some ⟨rfl, within rfl⟩)
  element := by
    rintro t _ ⟨rfl, h⟩ array
    exact .ok ⟨rfl, h.child closed (ne_of_eq_of_ne array (by rintro ⟨⟩)) 0⟩
  value := by
    rintro t _ ⟨rfl, h⟩ record
    exact .ok ⟨rfl, h.child closed (ne_of_eq_of_ne record (by rintro ⟨⟩)) 1⟩
  items := by
    rintro t _ ⟨rfl, h⟩ tuple
    have children := h.children (ne_of_eq_of_ne tuple (by rintro ⟨⟩))
    exact .ok (List.forall₂_same.mpr fun a ha => ⟨rfl, children a ha⟩)
  options := by
    rintro t _ ⟨rfl, h⟩ union
    have children := h.children (ne_of_eq_of_ne union (by rintro ⟨⟩))
    exact .ok (List.forall₂_same.mpr fun a ha => ⟨rfl, children a ha⟩)

/-- What is at a path in a type is made of the same shapes. -/
theorem Closed.typeAt (closed : shapes.Closed names) {t u : StaticType} (ht : shapes.Within t)
    {path : PathArgument} (h : names.typeAt limit t path = .ok u) : shapes.Within u := by
  have nowhere {failure : Failure} (h : Names.reached (.error failure) = .ok u) :
      shapes.Within u := by
    rw [Names.reached] at h
    split at h
    · cases h
      exact .never
    · cases h
  cases hpath : path.coerce with
  | error failure =>
    rw [names.typeAt_of_coerce_error hpath] at h
    exact nowhere h
  | ok coerced =>
    obtain ⟨text, pieces⟩ := coerced
    rw [names.typeAt_of_coerce_ok hpath] at h
    have same := (closed.lockstep.walkPieces limit text pieces ⟨rfl, ht⟩).outcome
    generalize (names.view.walkPieces limit text t pieces).outcome = found at h same
    cases same with
    | error failure => exact nowhere h
    | ok same =>
      cases h
      exact same.2

end Shapes

end Schemata
