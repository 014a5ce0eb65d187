import Mathlib
import Schemata.Proofs.Compilation.Run
import Std.Data.String.ToNat

/-!
# Definitions unfolded

A validator shares the definitions of lazy schemas, and recursion goes through references to them.
To any depth, following the references gives what is obtained without sharing: by compiling the
target of every lazy schema in the place of the lazy schema.
-/

namespace Schemata

namespace Plan

/-! ## References and unfolding -/

mutual

/-- The definitions that a plan refers to. -/
def references : Plan → List Nat
  | .list items => references items
  | .dict keys values => references keys ++ references values
  | .tuple items => referencesOfAll items
  | .union choices => referencesOfAll choices
  | .nullable inner => references inner
  | .chain first second => references first ++ references second
  | .object fields => referencesOfFields fields
  | .noneIfMissing inner => references inner
  | .valueIfMissing _ inner => references inner
  | .supplied _ inner => references inner
  | .reference n => [n]
  | .string _ | .number _ | .integer _ | .boolean _ | .null | .any | .literal _ | .call _ => []

def referencesOfAll : List Plan → List Nat
  | [] => []
  | p :: rest => references p ++ referencesOfAll rest

def referencesOfFields : List (Field Plan) → List Nat
  | [] => []
  | { plan, .. } :: rest => references plan ++ referencesOfFields rest

end

variable (definitions : List (Nat × Plan))

mutual

/-- A plan with definitions in the place of references, `n` of them inside one another. -/
def unfold (n : Nat) : Plan → Plan
  | .list items => .list (unfold n items)
  | .dict keys values => .dict (unfold n keys) (unfold n values)
  | .tuple items => .tuple (unfoldAll n items)
  | .union choices => .union (unfoldAll n choices)
  | .nullable inner => .nullable (unfold n inner)
  | .chain first second => .chain (unfold n first) (unfold n second)
  | .object fields => .object (unfoldFields n fields)
  | .noneIfMissing inner => .noneIfMissing (unfold n inner)
  | .valueIfMissing value inner => .valueIfMissing value (unfold n inner)
  | .supplied supply inner => .supplied supply (unfold n inner)
  | .reference k =>
    match n with
    | 0 => .reference k
    | n + 1 =>
      match definitions.lookup k with
      | some body => unfold n body
      | none => .reference k
  | .string strict => .string strict
  | .number strict => .number strict
  | .integer strict => .integer strict
  | .boolean strict => .boolean strict
  | .null => .null
  | .any => .any
  | .literal expected => .literal expected
  | .call function => .call function
termination_by p => (n, sizeOf p)

def unfoldAll (n : Nat) : List Plan → List Plan
  | [] => []
  | p :: rest => unfold n p :: unfoldAll n rest
termination_by ps => (n, sizeOf ps)

def unfoldFields (n : Nat) : List (Field Plan) → List (Field Plan)
  | [] => []
  | { name, plan, required } :: rest =>
    { name, plan := unfold n plan, required } :: unfoldFields n rest
termination_by fields => (n, sizeOf fields)

end

end Plan

namespace Validator

/-- The names of the definitions. -/
def names (v : Validator) : List String :=
  v.definitions.map fun d => definitionName d.1

/-- A definition is referred to, by the plan itself or inside a definition. -/
def Refers (v : Validator) (n : Nat) : Prop :=
  n ∈ v.root.references ∨ ∃ d ∈ v.definitions, n ∈ d.2.references

theorem definitionName_inj {m n : Nat} : definitionName m = definitionName n ↔ m = n := by
  unfold definitionName
  rw [String.append_right_inj]
  exact Nat.repr_inj

theorem names_eq_map (v : Validator) :
    v.names = (v.definitions.map (·.1)).map definitionName := by
  simp [names]

end Validator

namespace Scope

/-! ## Compiling without definitions -/

section

variable (scope : Scope) (limit : Nat) (number : NodeId → Nat)

mutual

/-- The plan of a schema in which every lazy schema has become the plan of the schema behind it, `n`
of them inside one another. Behind these, `number` tells what a lazy schema refers to. -/
def inlined (n : Nat) : Schema → Except Failure Plan
  | .leaf _ l => ((planOfLeaf l).run' .empty).outcome
  | .object _ shape => do return .object (← inlinedShape n shape)
  | .array _ element => do return .list (← inlined n element)
  | .record _ key value => do
    let keys ← inlined n key
    let values ← inlined n value
    return .dict keys values
  | .tuple _ items => do return .tuple (← inlinedAll n items)
  | .union _ options => do return .union (← inlinedAll n options)
  | .wrapper _ w inner => do return planOfWrapper w (← inlined n inner)
  | .pipe _ input output => do
    let first ← inlined n input
    let second ← inlined n output
    return .chain first second
  | .lazy id =>
    match n with
    | 0 => return .reference (number id)
    | n + 1 => do
      let target ← (scope.force limit limit (.lazy id)).outcome
      inlined n target
termination_by s => (n, sizeOf s)

def inlinedAll (n : Nat) : List Schema → Except Failure (List Plan)
  | [] => return []
  | s :: rest => do
    let plan ← inlined n s
    let plans ← inlinedAll n rest
    return plan :: plans
termination_by ss => (n, sizeOf ss)

def inlinedShape (n : Nat) : List (String × Schema) → Except Failure (List (Field Plan))
  | [] => return []
  | (name, s) :: rest => do
    let plan ← inlined n s
    let absence ← (scope.absence limit s).outcome
    let fields ← inlinedShape n rest
    return fieldOf name s plan absence :: fields
termination_by shape => (n, sizeOf shape)

end

end

variable {scope : Scope} {limit : Nat} {number : NodeId → Nat → Prop}
  {definitions : List (Nat × Plan)}

/-! ## The parts of plans -/

theorem unfold_planOfLeaf {l : Leaf} {p : Plan} (h : planOfLeaf l = pure p) (n : Nat) :
    p.unfold definitions n = p := by
  cases l with
  | base => exact (planOfLeaf_base_ne h).elim
  | _ =>
    obtain rfl := Compilation.pure_inj h
    rw [Plan.unfold]

theorem references_planOfLeaf {l : Leaf} {p : Plan} (h : planOfLeaf l = pure p) :
    p.references = [] := by
  cases l with
  | base => exact (planOfLeaf_base_ne h).elim
  | _ =>
    obtain rfl := Compilation.pure_inj h
    rfl

@[simp] theorem unfold_planOfWrapper (w : Wrapper) (p : Plan) (n : Nat) :
    (planOfWrapper w p).unfold definitions n = planOfWrapper w (p.unfold definitions n) := by
  cases w <;> simp [planOfWrapper, Plan.unfold]

@[simp] theorem references_planOfWrapper (w : Wrapper) (p : Plan) :
    (planOfWrapper w p).references = p.references := by
  cases w <;> simp [planOfWrapper, Plan.references]

theorem unfoldFields_fieldOf (name : String) (s : Schema) (p : Plan) (absence : Option Kind)
    (fields : List (Field Plan)) (n : Nat) :
    Plan.unfoldFields definitions n (fieldOf name s p absence :: fields)
      = fieldOf name s (p.unfold definitions n) absence
        :: Plan.unfoldFields definitions n fields := by
  cases absence with
  | none => simp [fieldOf, Plan.unfoldFields]
  | some k =>
    simp only [fieldOf]
    split <;> simp [Plan.unfoldFields, Plan.unfold]

@[simp] theorem referencesOfFields_fieldOf (name : String) (s : Schema) (p : Plan)
    (absence : Option Kind) (fields : List (Field Plan)) :
    Plan.referencesOfFields (fieldOf name s p absence :: fields)
      = p.references ++ Plan.referencesOfFields fields := by
  cases absence with
  | none => simp [fieldOf, Plan.referencesOfFields]
  | some k =>
    simp only [fieldOf]
    split <;> simp [Plan.referencesOfFields, Plan.references]

/-! ## Plans that belong to schemas -/

mutual

/-- A plan refers to lazy schemas only. -/
theorem Plans.exists_number {s : Schema} {p : Plan} {k : Nat} :
    scope.Plans limit number s p → k ∈ p.references → ∃ id, number id k
  | .leaf hp, hk => by
    rw [references_planOfLeaf hp] at hk
    cases hk
  | .object hfields, hk => PlansShape.exists_number hfields hk
  | .array hp, hk => Plans.exists_number hp hk
  | .record hp hq, hk => (List.mem_append.mp hk).elim (Plans.exists_number hp)
      (Plans.exists_number hq)
  | .tuple hps, hk => PlansAll.exists_number hps hk
  | .union hps, hk => PlansAll.exists_number hps hk
  | .wrapper hp, hk => by
    rw [references_planOfWrapper] at hk
    exact Plans.exists_number hp hk
  | .pipe hp hq, hk => (List.mem_append.mp hk).elim (Plans.exists_number hp)
      (Plans.exists_number hq)
  | .lazy hn, hk => ⟨_, List.mem_singleton.mp hk ▸ hn⟩

theorem PlansAll.exists_number {ss : List Schema} {ps : List Plan} {k : Nat} :
    scope.PlansAll limit number ss ps → k ∈ Plan.referencesOfAll ps → ∃ id, number id k
  | .nil, hk => by cases hk
  | .cons hp hps, hk => (List.mem_append.mp hk).elim (Plans.exists_number hp)
      (PlansAll.exists_number hps)

theorem PlansShape.exists_number {shape : List (String × Schema)} {fields : List (Field Plan)}
    {k : Nat} : scope.PlansShape limit number shape fields →
      k ∈ Plan.referencesOfFields fields → ∃ id, number id k
  | .nil, hk => by cases hk
  | .cons hp _ hfields, hk => by
    rw [referencesOfFields_fieldOf] at hk
    exact (List.mem_append.mp hk).elim (Plans.exists_number hp) (PlansShape.exists_number hfields)

end

section

variable {n : Nat} {position : NodeId → Nat}

mutual

/-- If the references of a plan unfold to what lazy schemas are inlined to, so does the plan. -/
theorem Plans.inlined_eq (references : ∀ id k, number id k →
      scope.inlined limit position n (.lazy id) = .ok ((Plan.reference k).unfold definitions n))
    {s : Schema} {p : Plan} :
    scope.Plans limit number s p →
      scope.inlined limit position n s = .ok (p.unfold definitions n)
  | @Plans.leaf _ _ _ id l p hp => by
    rw [inlined, unfold_planOfLeaf hp, hp]
    rfl
  | .object hfields => by
    rw [inlined, PlansShape.inlined_eq references hfields, Plan.unfold]
    rfl
  | .array hp => by
    rw [inlined, Plans.inlined_eq references hp, Plan.unfold]
    rfl
  | .record hp hq => by
    rw [inlined, Plans.inlined_eq references hp, Plans.inlined_eq references hq, Plan.unfold]
    rfl
  | .tuple hps => by
    rw [inlined, PlansAll.inlined_eq references hps, Plan.unfold]
    rfl
  | .union hps => by
    rw [inlined, PlansAll.inlined_eq references hps, Plan.unfold]
    rfl
  | .wrapper hp => by
    rw [inlined, Plans.inlined_eq references hp, unfold_planOfWrapper]
    rfl
  | .pipe hp hq => by
    rw [inlined, Plans.inlined_eq references hp, Plans.inlined_eq references hq, Plan.unfold]
    rfl
  | .lazy hn => references _ _ hn

theorem PlansAll.inlined_eq (references : ∀ id k, number id k →
      scope.inlined limit position n (.lazy id) = .ok ((Plan.reference k).unfold definitions n))
    {ss : List Schema} {ps : List Plan} :
    scope.PlansAll limit number ss ps →
      scope.inlinedAll limit position n ss = .ok (Plan.unfoldAll definitions n ps)
  | .nil => by
    rw [inlinedAll, Plan.unfoldAll]
    rfl
  | .cons hp hps => by
    rw [inlinedAll, Plans.inlined_eq references hp, PlansAll.inlined_eq references hps,
      Plan.unfoldAll]
    rfl

theorem PlansShape.inlined_eq (references : ∀ id k, number id k →
      scope.inlined limit position n (.lazy id) = .ok ((Plan.reference k).unfold definitions n))
    {shape : List (String × Schema)} {fields : List (Field Plan)} :
    scope.PlansShape limit number shape fields →
      scope.inlinedShape limit position n shape = .ok (Plan.unfoldFields definitions n fields)
  | .nil => by
    rw [inlinedShape, Plan.unfoldFields]
    rfl
  | .cons hp habsence hfields => by
    rw [inlinedShape, Plans.inlined_eq references hp, habsence,
      PlansShape.inlined_eq references hfields, unfoldFields_fieldOf]
    rfl

end

end

/-! ## Validators -/

/-- To any depth, a plan unfolds to what its schema is inlined to. -/
theorem Finished.inlined_eq {root : Schema} {d : Draft} {p : Plan}
    (h : scope.Finished limit root d p) (n : Nat) {s : Schema} {q : Plan}
    (hs : scope.Plans limit d.Numbers s q) :
    scope.inlined limit d.reached.idxOf n s = .ok (q.unfold d.definitions n) := by
  induction n generalizing s q with
  | zero =>
    refine hs.inlined_eq fun id k hk => ?_
    rw [inlined, Plan.unfold, hk.idxOf]
    rfl
  | succ n ih =>
    refine hs.inlined_eq fun id k hk => ?_
    obtain ⟨t, body, ht, found, hbody⟩ := h.definition hk
    rw [inlined, Plan.unfold]
    simp only [ht, found]
    exact ih hbody

/-- A validator stands for a schema. `reached` are the lazy schemas that have definitions, in the
order of the numbers of these. -/
structure Implements (scope : Scope) (limit : Nat) (s : Schema) (v : Validator)
    (reached : List NodeId) : Prop where
  /-- The lazy schemas that compiling builds are reached, and each of them once. -/
  built (id : NodeId) : id ∈ reached ↔ scope.Builds limit s (.lazy id)
  once : reached.Nodup
  /-- Each of them has one definition, and there are no other definitions. -/
  defined : (v.definitions.map (·.1)).Perm (List.range reached.length)
  distinct : v.names.Nodup
  /-- There are no definitions just when no lazy schema is built. -/
  bare : v.definitions = [] ↔ ∀ id, ¬ scope.Builds limit s (.lazy id)
  /-- Every reference names exactly one definition. -/
  closed {n : Nat} : v.Refers n → v.names.count (Validator.definitionName n) = 1
  /-- The plan unfolds to what the schema is inlined to. -/
  unfolds (n : Nat) : scope.inlined limit reached.idxOf n s = .ok (v.root.unfold v.definitions n)
  /-- A definition unfolds to what the schema behind its lazy schema is inlined to. -/
  opens {id : NodeId} : id ∈ reached → ∃ t p,
    (scope.force limit limit (.lazy id)).outcome = .ok t ∧
    v.definitions.lookup (reached.idxOf id) = some p ∧
    ∀ n, scope.inlined limit reached.idxOf n t = .ok (p.unfold v.definitions n)

/-- What compiling a schema gives stands for the schema: lazy schemas are shared as definitions, one
for each of them, and to any depth the references unfold to what is obtained by compiling every lazy
schema in its place. -/
theorem compile_implements {s : Schema} {v : Validator}
    (h : (scope.compile limit s).outcome = .ok v) :
    ∃ reached, scope.Implements limit s v reached := by
  obtain ⟨d, hdefinitions, finished⟩ := compile_finished h
  have numbers : (v.definitions.map (·.1)).Perm (List.range d.reached.length) :=
    hdefinitions ▸ finished.tidy.defined
  have distinct : v.names.Nodup := by
    rw [v.names_eq_map, hdefinitions]
    exact List.Nodup.map (fun _ _ => Validator.definitionName_inj.mp) finished.tidy.nodup_numbers
  -- Whatever is referred to has a number, and every number is that of a definition.
  have referred {n : Nat} (hn : v.Refers n) : ∃ id, d.Numbers id n := by
    rcases hn with hn | ⟨⟨m, p⟩, hmem, hn⟩
    · exact finished.plans.exists_number hn
    · rw [hdefinitions] at hmem
      obtain ⟨_, _, _, _, hp⟩ := finished.sound m p hmem
      exact hp.exists_number hn
  refine ⟨d.reached, fun id => finished.mem_reached_iff, finished.tidy.once, numbers, distinct, ?_,
    fun {n} hn => ?_, fun n => ?_, fun {id} hid => ?_⟩
  · constructor
    · intro none id builds
      have reached := finished.mem_reached_iff.mpr builds
      rw [none, List.map_nil, List.nil_perm, List.range_eq_nil, List.length_eq_zero_iff] at numbers
      rw [numbers] at reached
      cases reached
    · intro none
      have nothing : d.reached = [] :=
        List.eq_nil_iff_forall_not_mem.mpr fun id hid => none id (finished.built id hid)
      rw [nothing, List.length_nil, List.range_zero, List.perm_nil] at numbers
      exact List.map_eq_nil_iff.mp numbers
  · obtain ⟨id, hid⟩ := referred hn
    rw [distinct.count, if_pos]
    rw [v.names_eq_map]
    exact List.mem_map_of_mem (numbers.mem_iff.mpr (List.mem_range.mpr hid.lt))
  · rw [hdefinitions]
    exact finished.inlined_eq n finished.plans
  · obtain ⟨k, hk⟩ := Draft.exists_numbers hid
    obtain ⟨t, p, ht, found, hp⟩ := finished.definition hk
    refine ⟨t, p, ht, ?_, fun n => ?_⟩
    · rw [hk.idxOf, hdefinitions, found]
    · rw [hdefinitions]
      exact finished.inlined_eq n hp

/-- A tree whose branches are lazy. The right one leads to the left one. -/
def branching : Schema :=
  .object 2 [("left", .wrapper 3 .optional (.lazy 0)), ("right", .wrapper 4 .readonly (.lazy 1))]

/-- A scope in which the branching tree is defined. -/
def withBranching : Scope :=
  { defs := [("TREE", .schema branching), ("LEFT", .schema (.lazy 0))]
    getters := [(1, .named "LEFT"), (0, .named "TREE")] }

/-- Both branches have definitions, and inside these each branch is a reference. -/
theorem compile_implements_branching :
    let plan : Plan := .object [
      { name := "left", plan := .noneIfMissing (.reference 0), required := false },
      { name := "right", plan := .reference 1, required := true }]
    let v : Validator := { root := plan, definitions := [(1, plan), (0, plan)] }
    (withBranching.compile 64 branching).outcome = .ok v ∧
      ∃ reached, withBranching.Implements 64 branching v reached := by
  intro plan v
  have compiled : (withBranching.compile 64 branching).outcome = .ok v := by cbv
  exact ⟨compiled, compile_implements compiled⟩

end Scope

end Schemata
