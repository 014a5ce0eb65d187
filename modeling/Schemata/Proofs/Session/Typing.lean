import Schemata.Proofs.Derivation.Success
import Schemata.Proofs.Session.Runs

/-!
# Types in a session

Deriving a type changes the registry of a session as derivation does; looking a type up changes
nothing. Along the steps of a session in which every derivation succeeds, the registry stays sound and
what describes a schema goes on to describe it.
-/

namespace Schemata

namespace Session

open Scope

variable {σ σ' σ'' : Session} {o : Owners}

/-- What happens in a session: types are derived and looked up with success, or something is done
that touches neither what was derived nor the targets of lazy schemas. -/
inductive Step : Session → Session → Prop
  | derives {σ σ' : Session} {item : Item} {t : StaticType} :
    (deriveType item).exec σ = (.ok t, σ') → Step σ σ'
  | typeAt {σ σ' : Session} {t u : StaticType} {path : PathArgument} :
    (typeAtPath t path).exec σ = (.ok u, σ') → Step σ σ'
  | outputAt {σ σ' : Session} {t u : StaticType} {path : PathArgument} :
    (do outputOfType (← typeAtPath t path)).exec σ = (.ok u, σ') → Step σ σ'
  | elsewhere {σ σ' : Session} (declared : List (Space × String × StaticType)) :
    σ'.registry = { σ.registry with names := { σ.registry.names with declared } } →
    (∀ id s, σ.workshop.scope.target id = .ok s → σ'.workshop.scope.target id = .ok s) →
    Step σ σ'

abbrev Steps : Session → Session → Prop :=
  Relation.ReflTransGen Step

/-- A step derives the type of a schema, or it leaves the registry alone. -/
theorem Step.cases (h : Step σ σ') :
    (∃ s t, (σ.workshop.scope.staticType s).exec σ.unasked = (.ok t, σ'.registry)
      ∧ σ'.workshop = σ.workshop) ∨
    (∃ declared, σ'.registry = { σ.registry with names := { σ.registry.names with declared } })
      ∧ ∀ id s, σ.workshop.scope.target id = .ok s → σ'.workshop.scope.target id = .ok s := by
  cases h with
  | @derives item t h =>
    cases item with
    | value v => cases h
    | schema s =>
      rw [exec_deriveType] at h
      left
      obtain ⟨hok, rfl⟩ := Prod.mk.inj h
      exact ⟨s, t, Prod.ext hok rfl, rfl⟩
  | typeAt h =>
    rw [exec_typeAtPath] at h
    obtain ⟨_, rfl⟩ := Prod.mk.inj h
    exact .inr ⟨⟨_, rfl⟩, fun _ _ h => h⟩
  | @outputAt t u path h =>
    right
    obtain ⟨found, _, looked, h⟩ := Stateful.exec_bind_eq_ok h
    rw [exec_typeAtPath] at looked
    obtain ⟨_, rfl⟩ := Prod.mk.inj looked
    rw [exec_outputOfType found σ] at h
    obtain ⟨_, rfl⟩ := Prod.mk.inj h
    exact ⟨⟨_, rfl⟩, fun _ _ h => h⟩
  | elsewhere declared hregistry targets => exact .inr ⟨⟨declared, hregistry⟩, targets⟩

/-- A sound session stays sound, and types go on to describe what they described. -/
theorem Step.sound (h : Step σ σ') (sound : σ.workshop.scope.Sound σ.registry o) :
    ∃ o', σ'.workshop.scope.Sound σ'.registry o' ∧
      ∀ s t, DescribesDerived o σ.registry.Named s t → DescribesDerived o' σ'.registry.Named s t := by
  rcases h.cases with ⟨s, t, hexec, hworkshop⟩ | ⟨⟨declared, hregistry⟩, targets⟩
  · have start : σ.workshop.scope.Sound σ.unasked o := sound.with σ.registry.names.declared []
    have run := σ.workshop.scope.staticType_run start.ready s
    rw [hexec] at run
    cases run with
    | @ok _ _ o' grows _ _ =>
      refine ⟨o', hworkshop ▸ start.grows grows, ?_⟩
      exact fun s t ht => ht.mono (fun _ _ => grows.owners) fun _ _ => grows.le.named
  · refine ⟨o, ?_, ?_⟩
    · rw [hregistry]
      exact (sound.with declared σ.registry.asked).widen targets
    · rw [hregistry]
      exact fun _ _ h => h

theorem Steps.sound (h : Steps σ σ') (sound : σ.workshop.scope.Sound σ.registry o) :
    ∃ o', σ'.workshop.scope.Sound σ'.registry o' ∧
      ∀ s t, DescribesDerived o σ.registry.Named s t → DescribesDerived o' σ'.registry.Named s t := by
  induction h with
  | refl => exact ⟨o, sound, fun _ _ h => h⟩
  | tail _ step ih =>
    obtain ⟨o₁, sound₁, keeps₁⟩ := ih
    obtain ⟨o₂, sound₂, keeps₂⟩ := step.sound sound₁
    exact ⟨o₂, sound₂, fun s t ht => keeps₂ s t (keeps₁ s t ht)⟩

end Session

end Schemata
