import Schemata.Proofs.Compilation.Run

/-!
# When compiling succeeds

Compiling a schema succeeds just when everything that it builds has what it needs: leaves validate
something, properties of objects have a decision on their absence, and lazy schemas lead to a schema
that is not lazy.
-/

namespace Schemata

namespace Scope

/-- What compiling a schema needs of the schema alone. -/
def Supports (scope : Scope) (limit : Nat) : Schema → Prop
  | .leaf _ l => l ≠ .base
  | .object _ shape =>
    ∀ property ∈ shape, ∃ absence, (scope.absence limit property.2).outcome = .ok absence
  | .lazy id => ∃ t, (scope.force limit limit (.lazy id)).outcome = .ok t
  | .array .. | .record .. | .tuple .. | .union .. | .wrapper .. | .pipe .. => True

/-- Everything that compiling a schema builds has what it needs. -/
def Compilable (scope : Scope) (limit : Nat) (s : Schema) : Prop :=
  ∀ t, scope.Builds limit s t → scope.Supports limit t

variable {scope : Scope} {limit : Nat}

theorem Compilable.of_builds {s t : Schema} (h : scope.Compilable limit s)
    (builds : scope.Builds limit s t) : scope.Compilable limit t :=
  fun u hu => h u (builds.trans hu)

theorem Compilable.child {s c : Schema} (h : scope.Compilable limit s) (hc : c ∈ s.children) :
    scope.Compilable limit c :=
  h.of_builds (.single (.child hc))

/-- What has a plan has what it needs. -/
theorem Finished.supports {s t : Schema} {d : Draft} {root : Plan}
    (h : scope.Finished limit s d root) {p : Plan} (hp : scope.Plans limit d.Numbers t p) :
    scope.Supports limit t := by
  cases hp with
  | leaf hp =>
    rintro rfl
    exact planOfLeaf_base_ne hp
  | object hfields =>
    intro property hproperty
    obtain ⟨_, absence, _, habsence⟩ := hfields.exists_plan hproperty
    exact ⟨absence, habsence⟩
  | lazy hn =>
    obtain ⟨t, _, ht, _⟩ := h.definition hn
    exact ⟨t, ht⟩
  | _ => trivial

/-- What has a plan can be compiled by itself. -/
theorem Finished.compilable_of_plans {s t : Schema} {d : Draft} {root : Plan}
    (h : scope.Finished limit s d root) {p : Plan} (hp : scope.Plans limit d.Numbers t p) :
    scope.Compilable limit t := by
  intro u builds
  obtain ⟨q, hq⟩ := h.exists_plan_of_builds hp builds
  exact h.supports hq

theorem Finished.compilable {s : Schema} {d : Draft} {root : Plan}
    (h : scope.Finished limit s d root) : scope.Compilable limit s :=
  h.compilable_of_plans h.plans

/-- A leaf that validates something has a plan. -/
theorem exists_ok_planOfLeaf {l : Leaf} (h : l ≠ .base) (d : Draft) :
    ∃ made, ((planOfLeaf l).run d).outcome = .ok made := by
  cases l with
  | base => exact absurd rfl h
  | _ => exact ⟨_, rfl⟩

theorem exists_ok_map {α β : Type} {x : Except Failure α} (h : ∃ made, x = .ok made) (f : α → β) :
    ∃ made, x.map f = .ok made := by
  obtain ⟨_, rfl⟩ := h
  exact ⟨_, rfl⟩

mutual

/-- Each failure of a compilation is that of a schema that it builds. -/
theorem Compiles.exists_ok {d : Draft} {s : Schema} {opened : List NodeId}
    {x : Except Failure (Plan × Draft)} :
    scope.Compiles limit d s opened x → scope.Compilable limit s → ∃ made, x = .ok made
  | .leaf, compilable => exists_ok_planOfLeaf (compilable _ .refl) _
  | .object h, compilable =>
    exists_ok_map (CompilesShape.exists_ok h (fun _ hc => compilable.child hc)
      (compilable _ .refl)) _
  | .composite _ h, compilable =>
    exists_ok_map (CompilesAll.exists_ok h fun _ hc => compilable.child hc) _
  | .reference _, _ => ⟨_, rfl⟩
  | .astray _ hfails, compilable => by
    obtain ⟨t, ht⟩ := compilable _ .refl
    rw [hfails] at ht
    cases ht
  | .target _ ht h, compilable =>
    exists_ok_map (Compiles.exists_ok h (compilable.of_builds (.single (.target ht)))) _

theorem CompilesAll.exists_ok {d : Draft} {ss : List Schema} {opened : List NodeId}
    {x : Except Failure (List Plan × Draft)} :
    scope.CompilesAll limit d ss opened x → (∀ s ∈ ss, scope.Compilable limit s) →
      ∃ made, x = .ok made
  | .nil, _ => ⟨_, rfl⟩
  | .stop h, each => by
    obtain ⟨_, hx⟩ := Compiles.exists_ok h (each _ List.mem_cons_self)
    cases hx
  | .cons _ rest, each =>
    exists_ok_map (CompilesAll.exists_ok rest fun s hs => each s (List.mem_cons_of_mem _ hs)) _

theorem CompilesShape.exists_ok {d : Draft} {shape : List (String × Schema)}
    {opened : List NodeId} {x : Except Failure (List (Field Plan) × Draft)} :
    scope.CompilesShape limit d shape opened x →
      (∀ s ∈ shape.map (·.2), scope.Compilable limit s) →
      (∀ property ∈ shape, ∃ absence, (scope.absence limit property.2).outcome = .ok absence) →
      ∃ made, x = .ok made
  | .nil, _, _ => ⟨_, rfl⟩
  | .stop h, each, _ => by
    obtain ⟨_, hx⟩ := Compiles.exists_ok h (each _ List.mem_cons_self)
    cases hx
  | .undecided _ hfails, _, decided => by
    obtain ⟨absence, habsence⟩ := decided _ List.mem_cons_self
    rw [hfails] at habsence
    cases habsence
  | .cons _ _ rest, each, decided =>
    exists_ok_map (CompilesShape.exists_ok rest (fun s hs => each s (List.mem_cons_of_mem _ hs))
      fun property h => decided property (List.mem_cons_of_mem _ h)) _

end

/-- Compiling a schema succeeds just when everything that it builds has what it needs. -/
theorem compile_isOk_iff {s : Schema} :
    (∃ v, (scope.compile limit s).outcome = .ok v) ↔ scope.Compilable limit s := by
  constructor
  · rintro ⟨v, h⟩
    obtain ⟨d, _, finished⟩ := compile_finished h
    exact finished.compilable
  · intro compilable
    obtain ⟨opened, x, compiles, same⟩ := scope.compile_compiles limit s
    rw [same]
    exact exists_ok_map (compiles.exists_ok compilable) _

end Scope

end Schemata
