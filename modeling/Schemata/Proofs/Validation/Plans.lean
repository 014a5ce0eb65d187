import Schemata.Plan.OfSchema
import Schemata.Proofs.Schema.Graph

/-!
# Plans that belong to schemas

A plan belongs to a schema if it has the parts that compiling the schema puts together, with
references in the place of lazy schemas. A draft is sound if every definition in it belongs to what a
lazy schema leads to.
-/

namespace Schemata

namespace Scope

section

variable (scope : Scope) (limit : Nat)

mutual

/-- A plan belongs to a schema. `number` tells which definitions a lazy schema may refer to. -/
inductive Plans (number : NodeId → Nat → Prop) : Schema → Plan → Prop
  | leaf {id : NodeId} {l : Leaf} {p : Plan} : planOfLeaf l = pure p → Plans number (.leaf id l) p
  | object {id : NodeId} {shape : List (String × Schema)} {fields : List (Field Plan)} :
    PlansShape number shape fields → Plans number (.object id shape) (.object fields)
  | array {id : NodeId} {element : Schema} {p : Plan} :
    Plans number element p → Plans number (.array id element) (.list p)
  | record {id : NodeId} {key value : Schema} {p q : Plan} :
    Plans number key p → Plans number value q → Plans number (.record id key value) (.dict p q)
  | tuple {id : NodeId} {items : List Schema} {ps : List Plan} :
    PlansAll number items ps → Plans number (.tuple id items) (.tuple ps)
  | union {id : NodeId} {options : List Schema} {ps : List Plan} :
    PlansAll number options ps → Plans number (.union id options) (.union ps)
  | wrapper {id : NodeId} {w : Wrapper} {inner : Schema} {p : Plan} :
    Plans number inner p → Plans number (.wrapper id w inner) (planOfWrapper w p)
  | pipe {id : NodeId} {input output : Schema} {p q : Plan} :
    Plans number input p → Plans number output q → Plans number (.pipe id input output) (.chain p q)
  | lazy {id : NodeId} {n : Nat} : number id n → Plans number (.lazy id) (.reference n)

inductive PlansAll (number : NodeId → Nat → Prop) : List Schema → List Plan → Prop
  | nil : PlansAll number [] []
  | cons {s : Schema} {ss : List Schema} {p : Plan} {ps : List Plan} :
    Plans number s p → PlansAll number ss ps → PlansAll number (s :: ss) (p :: ps)

inductive PlansShape (number : NodeId → Nat → Prop) :
    List (String × Schema) → List (Field Plan) → Prop
  | nil : PlansShape number [] []
  | cons {name : String} {s : Schema} {shape : List (String × Schema)} {p : Plan}
      {absence : Option Kind} {fields : List (Field Plan)} :
    Plans number s p → (scope.absence limit s).outcome = .ok absence →
    PlansShape number shape fields →
    PlansShape number ((name, s) :: shape) (fieldOf name s p absence :: fields)

end

end

variable {scope : Scope} {limit : Nat} {number number' : NodeId → Nat → Prop}

mutual

theorem Plans.mono (h : ∀ id n, number id n → number' id n) {s : Schema} {p : Plan} :
    scope.Plans limit number s p → scope.Plans limit number' s p
  | .leaf hp => .leaf hp
  | .object hfields => .object (PlansShape.mono h hfields)
  | .array hp => .array (Plans.mono h hp)
  | .record hp hq => .record (Plans.mono h hp) (Plans.mono h hq)
  | .tuple hps => .tuple (PlansAll.mono h hps)
  | .union hps => .union (PlansAll.mono h hps)
  | .wrapper hp => .wrapper (Plans.mono h hp)
  | .pipe hp hq => .pipe (Plans.mono h hp) (Plans.mono h hq)
  | .lazy hn => .lazy (h _ _ hn)

theorem PlansAll.mono (h : ∀ id n, number id n → number' id n) {ss : List Schema}
    {ps : List Plan} : scope.PlansAll limit number ss ps → scope.PlansAll limit number' ss ps
  | .nil => .nil
  | .cons hp hps => .cons (Plans.mono h hp) (PlansAll.mono h hps)

theorem PlansShape.mono (h : ∀ id n, number id n → number' id n)
    {shape : List (String × Schema)} {fields : List (Field Plan)} :
    scope.PlansShape limit number shape fields → scope.PlansShape limit number' shape fields
  | .nil => .nil
  | .cons hp habsence hfields => .cons (Plans.mono h hp) habsence (PlansShape.mono h hfields)

end

end Scope

/-! ## Drafts -/

namespace Draft

variable {d d' : Draft} {id id' : NodeId} {n : Nat}

/-- A lazy schema has a definition number. -/
def Numbers (d : Draft) (id : NodeId) (n : Nat) : Prop :=
  d.number? id = some n

theorem Numbers.det (h : d.Numbers id n) (h' : d.Numbers id' n) : id = id' := by
  have at_n {j : NodeId} (hj : d.Numbers j n) : d.reached[n]? = some j := by
    obtain ⟨hlt, hn, _⟩ := List.findIdx?_eq_some_iff_getElem.mp hj
    rw [List.getElem?_eq_getElem hlt, beq_iff_eq.mp hn]
  exact Option.some.inj ((at_n h).symm.trans (at_n h'))

/-- Numbers stay when further schemas are reached. -/
theorem Numbers.of_append (h : d.Numbers id n) {new : List NodeId}
    (grown : d'.reached = d.reached ++ new) : d'.Numbers id n := by
  unfold Numbers number? at h ⊢
  rw [grown, List.findIdx?_append, h]
  rfl

theorem Numbers.reach (h : d.Numbers id n) (id' : NodeId) : (d.reach id').Numbers id n :=
  h.of_append rfl

/-- The schema that is reached gets the next number. -/
theorem numbers_reach (h : d.number? id = none) : (d.reach id).Numbers id d.reached.length := by
  unfold Numbers number? at *
  rw [Draft.reach, List.findIdx?_append, h]
  simp [List.findIdx?_cons]

/-- Every definition belongs to the first schema that is not lazy behind the lazy schema with its
number. -/
def Sound (scope : Scope) (limit : Nat) (d : Draft) : Prop :=
  ∀ n p, (n, p) ∈ d.definitions → ∃ id s, d.Numbers id n ∧
    (scope.force limit limit (.lazy id)).outcome = .ok s ∧ scope.Plans limit d.Numbers s p

variable {scope : Scope} {limit : Nat}

theorem Sound.empty : Sound scope limit .empty :=
  fun _ _ h => absurd h List.not_mem_nil

theorem Sound.reach (h : d.Sound scope limit) (id : NodeId) : (d.reach id).Sound scope limit := by
  intro n p hmem
  obtain ⟨j, s, hn, hs, hp⟩ := h n p hmem
  exact ⟨j, s, hn.reach id, hs, hp.mono fun _ _ hn => hn.reach id⟩

theorem Sound.complete (h : d.Sound scope limit) (hn : d.Numbers id n) {s : Schema} {p : Plan}
    (hs : (scope.force limit limit (.lazy id)).outcome = .ok s)
    (hp : scope.Plans limit d.Numbers s p) : (d.complete n p).Sound scope limit := by
  intro m q hmem
  rcases List.mem_append.mp hmem with hmem | hmem
  · exact h m q hmem
  · cases List.mem_singleton.mp hmem
    exact ⟨id, s, hn, hs, hp⟩

end Draft

/-! ## Plans of leaves -/

theorem Compilation.pure_inj {α : Type} {a b : α} (h : (pure a : Compilation α) = pure b) :
    a = b := by
  have run := congrArg (fun m => (m.run Draft.empty).outcome) h
  cases run
  rfl

namespace Scope

/-- The base of all schemas has no plan. -/
theorem planOfLeaf_base_ne {p : Plan} : planOfLeaf .base ≠ pure p := by
  intro h
  have run := congrArg (fun m => (m.run Draft.empty).outcome) h
  cases run

end Scope

end Schemata
