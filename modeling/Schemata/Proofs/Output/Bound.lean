import Schemata.Proofs.Output.Run

/-!
# How deep output types are built

The shapes in a type and behind the names that it uses are finitely many, and at most as many as objects
are entered inside one another. So the output type of a derived type can be built whenever its schema
has one.
-/

namespace Schemata

namespace StaticType

mutual

/-- The shapes that occur in a type, each as often as it occurs. -/
def shapeIds : StaticType → List ShapeId
  | schema _ (some args) => shapeIdsAll args
  | shape id _ fields _ => id :: shapeIdsFields fields
  | list item => shapeIds item
  | dict key value => shapeIds key ++ shapeIds value
  | tuple items => shapeIdsAll items
  | union members => shapeIdsAll members
  | _ => []

def shapeIdsAll : List StaticType → List ShapeId
  | [] => []
  | t :: rest => shapeIds t ++ shapeIdsAll rest

def shapeIdsFields : List (String × StaticType) → List ShapeId
  | [] => []
  | (_, t) :: rest => shapeIds t ++ shapeIdsFields rest

end

mutual

theorem length_shapeIds (t : StaticType) : t.shapeIds.length = t.shapeCount := by
  cases t with
  | schema c args =>
    cases args with
    | none => rfl
    | some args => exact length_shapeIdsAll args
  | shape id name fields optional =>
    rw [shapeIds, shapeCount, List.length_cons, length_shapeIdsFields fields, Nat.add_comm]
  | list item => exact length_shapeIds item
  | dict key value =>
    rw [shapeIds, shapeCount, List.length_append, length_shapeIds key, length_shapeIds value]
  | tuple items => exact length_shapeIdsAll items
  | union members => exact length_shapeIdsAll members
  | _ => rfl

theorem length_shapeIdsAll (ts : List StaticType) :
    (shapeIdsAll ts).length = shapeCountAll ts := by
  cases ts with
  | nil => rfl
  | cons t rest =>
    rw [shapeIdsAll, shapeCountAll, List.length_append, length_shapeIds t, length_shapeIdsAll rest]

theorem length_shapeIdsFields (fields : List (String × StaticType)) :
    (shapeIdsFields fields).length = shapeCountFields fields := by
  match fields with
  | [] => rfl
  | (_, t) :: rest =>
    rw [shapeIdsFields, shapeCountFields, List.length_append, length_shapeIds t,
      length_shapeIdsFields rest]

end

theorem shapeIdsFields_eq (fields : List (String × StaticType)) :
    shapeIdsFields fields = shapeIdsAll (fields.map (·.2)) := by
  induction fields with
  | nil => rfl
  | cons field rest ih => rw [shapeIdsFields, ih, List.map_cons, shapeIdsAll]

theorem shapeIds_subset_fields {name : String} {t : StaticType}
    {fields : List (String × StaticType)} (h : (name, t) ∈ fields) :
    t.shapeIds ⊆ shapeIdsFields fields := by
  induction fields with
  | nil => cases h
  | cons field rest ih =>
    rcases List.mem_cons.mp h with rfl | h
    · exact List.subset_append_left _ _
    · exact List.subset_append_of_subset_right _ (ih h)

end StaticType

/-- The shapes in a type and behind all names. -/
def Names.shapesAround (names : Names) (t : StaticType) : List ShapeId :=
  t.shapeIds ++ StaticType.shapeIdsFields names.all

theorem Names.length_shapesAround (names : Names) (t : StaticType) :
    (names.shapesAround t).length = names.shapeBound t := by
  rw [shapesAround, shapeBound, List.length_append, StaticType.length_shapeIds,
    StaticType.length_shapeIdsFields]

theorem Names.shapeIds_subset_shapesAround (names : Names) (t : StaticType) (n : String)
    (u : StaticType) (h : names.derived.lookup n = some u) :
    u.shapeIds ⊆ names.shapesAround t := by
  intro sid hsid
  have hmem : (n, u) ∈ names.all := List.mem_append_left _ (mem_of_lookup h)
  exact List.mem_append_right _ (StaticType.shapeIds_subset_fields hmem hsid)

/-! ## Descriptions -/

/-- The same reading, for shapes among `bound` only. -/
def Reading.within (ρ : Reading) (bound : List ShapeId) : Reading :=
  { ρ with shape := fun sid name shape => ρ.shape sid name shape ∧ sid ∈ bound }

section

variable {ρ : Reading} {bound : List ShapeId}

mutual

theorem Describes.within {outer : NodeId → String → Prop} {s : Schema} {t : StaticType} :
    Describes ρ outer s t → t.shapeIds ⊆ bound → Describes (ρ.within bound) outer s t
  | .leaf h => fun _ => .leaf h
  | .object hshape hnames hfields => fun hsub => by
    simp only [StaticType.shapeIds, StaticType.shapeIdsAll, StaticType.shapeIdsFields_eq,
      List.append_nil, List.cons_subset] at hsub
    exact .object ⟨hshape, hsub.1⟩ hnames (DescribesAll.within hfields hsub.2)
  | .composite hs hts => fun hsub => .composite hs (DescribesAll.within hts hsub)
  | .reference h => fun _ => .reference h
  | .target hopens h => fun hsub => by
    simp only [StaticType.shapeIds, StaticType.shapeIdsAll, List.append_nil] at hsub
    exact .target hopens (Describes.within h hsub)

theorem DescribesAll.within {outer : NodeId → String → Prop} {ss : List Schema}
    {ts : List StaticType} :
    DescribesAll ρ outer ss ts → StaticType.shapeIdsAll ts ⊆ bound →
      DescribesAll (ρ.within bound) outer ss ts
  | .nil => fun _ => .nil
  | .cons h hs => fun hsub => by
    rw [StaticType.shapeIdsAll, List.append_subset] at hsub
    exact .cons (Describes.within h hsub.1) (DescribesAll.within hs hsub.2)

end

end

/-! ## Derived types -/

namespace Scope

variable {scope : Scope} {names : Names} {r : Registry} {o : Owners}

/-- Names whose entries describe what they stand for are all that building output types relies on. -/
theorem legible_of_entries {refers : NodeId → String → Prop} {bound : List ShapeId}
    (entries : ∀ id n, refers id n → ∃ s t, scope.target id = .ok s ∧
      names.derived.lookup n = some t ∧ DescribesDerived o refers s t)
    (injective : ∀ id id' n, refers id n → refers id' n → id = id')
    (hbound : ∀ n t, names.derived.lookup n = some t → t.shapeIds ⊆ bound) :
    scope.Legible names o ((scope.reading o refers).within bound) refers bound where
  traversable := by
    have lawful := Reading.derived_lawful o refers fun id s => scope.target id = .ok s
    refine Reading.Lawful.traversable ⟨lawful.leaf_class, lawful.leaf_settled⟩ (fun _ => rfl)
      (fun _ _ h => h) ?_
    intro id n hn
    obtain ⟨s, t, htarget, hlookup, ht⟩ := entries id n hn
    exact ⟨s, t, htarget, hlookup, ht.toReading.within (hbound n t hlookup)⟩
  leaf h := h
  shape := by
    rintro sid name shape ⟨⟨k, rfl, rfl, hk⟩, hmem⟩
    exact ⟨k, rfl, rfl, hk, hmem⟩
  injective := injective _ _ _

/-- There is room for all shapes at first. -/
theorem Room.start (names : Names) (t : StaticType) :
    Room (names.shapesAround t) (names.shapeBound t) [] :=
  ⟨.nil, List.nil_subset _, by simp [names.length_shapesAround]⟩

/-- The derived types of a sound registry can be read. -/
theorem Sound.legible (h : scope.Sound r o) {bound : List ShapeId}
    (hbound : ∀ n t, r.names.derived.lookup n = some t → t.shapeIds ⊆ bound) :
    scope.Legible r.names o ((scope.reading o r.Named).within bound) r.Named bound :=
  legible_of_entries (fun _ _ => h.entries) (fun _ _ _ => h.ready.tidy.injective) hbound

/-- Building the output type of a type that describes a schema gives the output type of the schema, if
it has one. -/
theorem Sound.outputOf_run (h : scope.Sound r o) {limit : Nat} {s : Schema} {t : StaticType}
    (hst : Describes (scope.reading o r.Named) r.Named s t) {cache : OutputCache}
    (start : scope.Cached limit o [] cache) :
    scope.Outputs limit o [] cache (scope.Expressible s)
      (fun cache' u => scope.YieldsIn o [] cache' s u)
      ((r.names.outputOf limit t).exec cache) := by
  have legible := h.legible (r.names.shapeIds_subset_shapesAround t)
  refine outputIn_run legible (.start _ _) (fun possible => .start possible) ?_ start
  exact hst.within (List.subset_append_left _ _)

end Scope

end Schemata
