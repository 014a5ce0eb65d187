import Schemata.Proofs.Mirror.View
import Schemata.Proofs.Session.Typing

/-!
# Paths through derived types

A path leads through the type that is derived from a schema as it leads through the schema: to a type
of the class of the schema that is found, or nowhere in both. This holds for as long as the session
lasts, whatever is derived and looked up in it, before and afterwards.
-/

namespace Schemata

/-! ## Sound registries -/

theorem Reading.derived_lawful (owners : Owners) (refers : NodeId → String → Prop)
    (opens : NodeId → Schema → Prop) : (Reading.derived owners refers opens).Lawful where
  leaf_class := by
    rintro l t rfl
    exact l.schemaClass?_staticType
  leaf_settled := by
    rintro l t entries opened rfl
    exact l.evaluateIn_staticType entries opened

/-- The reading of derived types in which the references may have been replaced. -/
abbrev Scope.reading (scope : Scope) (owners : Owners) (refers : NodeId → String → Prop) : Reading :=
  .derived owners refers fun id s => scope.target id = .ok s

theorem DescribesDerived.toReading {scope : Scope} {owners : Owners}
    {refers : NodeId → String → Prop} {s : Schema} {t : StaticType}
    (h : DescribesDerived owners refers s t) :
    Describes (scope.reading owners refers) refers s t :=
  Describes.mono (Reading.derived_le (fun _ _ h => h) (fun _ _ h => h) fun _ _ => False.elim)
    (fun _ _ h => h) h

/-- What derived names stand for can be used in every shape. -/
theorem Binds.visible {ρ : Reading} {names : Names} {outer : NodeId → String → Prop}
    (binds : Binds ρ outer names.derived) (sid : ShapeId) : Binds ρ outer (names.visible sid) := by
  intro id n hn
  obtain ⟨s, t, hopens, hlookup, ht⟩ := binds id n hn
  exact ⟨s, t, hopens, names.lookup_visible sid hlookup, ht⟩

/-- Where every name stands for a type that was derived for it, no reference leads astray. -/
theorem Reading.Lawful.traversable {ρ : Reading} {scope : Scope} {names : Names}
    {outer : NodeId → String → Prop} (lawful : ρ.Lawful) (refers : ∀ sid, ρ.refers sid = outer)
    (opens : ∀ id s, ρ.opens id s → scope.target id = .ok s) (binds : Binds ρ outer names.derived) :
    ρ.Traversable scope names (· = outer) fun _ => False where
  lawful := lawful
  looked {sid s t} hst := by
    rw [refers] at hst
    exact ⟨_, rfl, hst.evaluate lawful (hst.evaluateIn lawful (binds.visible sid) [])⟩
  faultless {sid s t} hst := by
    rw [refers] at hst
    exact hst.fault? lawful (hst.evaluateIn lawful (binds.visible sid) [])
  opens := opens _ _
  resolved := by
    rintro _ id n u rfl hn hu
    obtain ⟨s, t, hopens, hlookup, ht⟩ := binds id n hn
    obtain rfl := Option.some.inj (hlookup.symm.trans hu)
    exact ⟨s, _, rfl, opens _ _ hopens, ht⟩
  unresolved := by
    rintro _ id n rfl hn hnone
    obtain ⟨s, t, _, hlookup, _⟩ := binds id n hn
    rw [hnone] at hlookup
    cases hlookup
  lost h := h.elim

/-- In a sound registry, no reference of a derived type leads astray. -/
theorem Scope.Sound.traversable {scope : Scope} {r : Registry} {o : Owners}
    (h : scope.Sound r o) :
    (scope.reading o r.Named).Traversable scope r.names (· = r.Named) fun _ => False := by
  refine (Reading.derived_lawful _ _ _).traversable (fun _ => rfl) (fun _ _ h => h) ?_
  intro id n hn
  obtain ⟨s, t, htarget, hlookup, ht⟩ := h.entries hn
  exact ⟨s, t, htarget, hlookup, ht.toReading⟩

/-- A path through a derived type leads to a description of what the path through the schema leads to,
or fails as that path does. -/
theorem Scope.Sound.leads {scope : Scope} {r : Registry} {o : Owners} (h : scope.Sound r o)
    {s : Schema} {t : StaticType} (hst : DescribesDerived o r.Named s t) (limit : Nat)
    (path : PathArgument) :
    ∃ found, r.names.typeAt limit t path = Names.reached found ∧
      Related (Describes (scope.reading o r.Named) r.Named) (scope.resolve limit s path).outcome
        found := by
  rcases h.traversable.leads rfl hst.toReading limit path with
    ⟨_, found, heq, related⟩ | ⟨⟨_, _, lost⟩, _⟩
  · refine ⟨found, heq, related.mono ?_⟩
    rintro s u ⟨_, rfl, hu⟩
    exact hu
  · exact lost.elim

/-- Paths through a derived type mirror those through the schema. -/
theorem Scope.Sound.mirrors {scope : Scope} {r : Registry} {o : Owners} (h : scope.Sound r o)
    {s : Schema} {t : StaticType} (hst : DescribesDerived o r.Named s t) (limit : Nat)
    (path : PathArgument) :
    Mirrors (scope.resolve limit s path).outcome (r.names.typeAt limit t path) := by
  rcases h.traversable.follows rfl hst.toReading limit path with ⟨_, mirrors⟩ | ⟨⟨_, _, lost⟩, _⟩
  · exact mirrors
  · exact lost.elim

/-! ## Sessions -/

namespace Session

variable {σ₀ σ : Session} {s : Schema}

/-- Along the steps of a session, a grounded schema has a type through which paths lead as they lead
through the schema. -/
theorem mirrors_of_steps (fresh : Scope.Fresh σ₀.registry) (before : Steps σ₀ σ)
    (ground : σ.workshop.scope.Grounded (fun _ => False) s) :
    ∃ t σ', (deriveType (.schema s)).exec σ = (.ok t, σ') ∧
      ∀ σ'', Steps σ' σ'' → ∀ limit path,
        Mirrors (σ''.workshop.scope.resolve limit s path).outcome
          (σ''.registry.names.typeAt limit t path) := by
  obtain ⟨o, sound, _⟩ := before.sound fresh.sound
  have start := sound.with σ.registry.names.declared []
  obtain ⟨t, r, o', hexec, _, sound', ht⟩ := start.staticType (ground.mono fun _ => False.elim)
  refine ⟨t, σ.withRegistry r, ?_, ?_⟩
  · rw [exec_deriveType, hexec]
  · intro σ'' after limit path
    obtain ⟨o'', sound'', keeps⟩ := Steps.sound after sound'
    exact sound''.mirrors (keeps s t ht) limit path

/-- Deriving the type of a schema whose reachable lazy schemas all have targets succeeds, after any
steps. From then on a path through the type leads to no type just when resolving it in the schema
fails for the path, and otherwise to a type of the class of the schema that is found. What is wrong
with the path as an argument is noticed by both. -/
theorem typeAt_derived_mirrors_resolve (fresh : Scope.Fresh σ₀.registry) (before : Steps σ₀ σ)
    (ground : σ.workshop.scope.Grounded (fun _ => False) s) :
    ∃ t σ', (deriveType (.schema s)).exec σ = (.ok t, σ') ∧
      ∀ σ'', Steps σ' σ'' → ∀ limit path,
        let resolved := (σ''.workshop.scope.resolve limit s path).outcome
        let found := σ''.registry.names.typeAt limit t path
        (found = .ok .never ↔
          ∃ failure, resolved = .error failure ∧ failure.isPathFailure = true) ∧
        (∀ s', resolved = .ok s' → ∃ u, found = .ok u ∧ u.schemaClass? = some s'.schemaClass) ∧
        (∀ failure, failure.isPathFailure = false →
          (found = .error failure ↔ resolved = .error failure)) := by
  obtain ⟨t, σ', hexec, mirrors⟩ := mirrors_of_steps fresh before ground
  refine ⟨t, σ', hexec, ?_⟩
  intro σ'' after limit path
  have mirror := mirrors σ'' after limit path
  exact ⟨mirror.never_iff, fun _ => mirror.schemaClass?, fun _ => mirror.error_iff⟩

/-- A tree: an object with a name and with children that are trees. -/
def tree : Schema :=
  .object 1 [("name", .leaf 2 (.string false)), ("children", .array 3 (.lazy 0))]

/-- A session in which the tree is defined. -/
def withTree : Session :=
  { initial with
    workshop :=
      { Workshop.empty with
        scope := { defs := [("TREE", .schema tree)], getters := [(0, .named "TREE")] } } }

theorem withTree_grounded : withTree.workshop.scope.Grounded (fun _ => False) tree := by
  let P (s : Schema) : Prop :=
    s = tree ∨ s = .leaf 2 (.string false) ∨ s = .array 3 (.lazy 0) ∨ s = .lazy 0
  have target : withTree.workshop.scope.target 0 = .ok tree := rfl
  refine Scope.Grounded.of_closed (P := P) ?_ ?_ (.inl rfl)
  · rintro s t hs hlead
    cases hlead with
    | child hmem =>
      rcases hs with rfl | rfl | rfl | rfl <;> simp [Schema.children, tree] at hmem
      · rcases hmem with rfl | rfl <;> simp [P]
      · simp [P, hmem]
    | @target id t _ ht =>
      obtain rfl : id = 0 := by simpa [P, tree] using hs
      rw [target] at ht
      cases ht
      exact .inl rfl
  · rintro id hid
    obtain rfl : id = 0 := by simpa [P, tree] using hid
    exact ⟨tree, target⟩

/-- After the type of the lazy schema was derived, the type of the tree is derived from the same
registry, and an array type is found two levels down. -/
theorem typeAt_derived_tree :
    ∃ σ t σ', Steps withTree σ ∧ (deriveType (.schema tree)).exec σ = (.ok t, σ') ∧
      ∃ u, σ'.registry.names.typeAt 64 t
          (.list [.segment (.property "children"), .segment .element,
            .segment (.property "children")]) = .ok u ∧
        u.schemaClass? = some .array := by
  have fresh : Scope.Fresh withTree.registry := ⟨rfl, rfl⟩
  have ground := withTree_grounded
  have workshop {item : Item} {σ σ' : Session} {t : StaticType}
      (h : (deriveType item).exec σ = (.ok t, σ')) : σ'.workshop = σ.workshop := by
    cases item with
    | value v => cases h
    | schema s =>
      rw [exec_deriveType] at h
      exact congrArg (·.workshop) (Prod.mk.inj h).2.symm
  have behind : withTree.workshop.scope.Grounded (fun _ => False) (.lazy 0) :=
    Scope.Grounded.lazy_iff.mpr fun _ => ⟨tree, rfl, ground⟩
  obtain ⟨_, σ, hlazy, _⟩ := typeAt_derived_mirrors_resolve fresh .refl behind
  have hσ : σ.workshop = withTree.workshop := workshop hlazy
  obtain ⟨t, σ', htree, mirrors⟩ := typeAt_derived_mirrors_resolve fresh
    (.single (.derives hlazy)) (hσ ▸ ground)
  have hσ' : σ'.workshop = withTree.workshop := (workshop htree).trans hσ
  refine ⟨σ, t, σ', .single (.derives hlazy), htree, ?_⟩
  obtain ⟨_, found, _⟩ := mirrors σ' .refl 64 _
  refine found (.array 3 (.lazy 0)) ?_
  rw [hσ']
  rfl

end Session

end Schemata
