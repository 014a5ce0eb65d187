import Mathlib
import Schemata.Proofs.Compilation.Calls
import Schemata.Proofs.Derivation.Calls
import Schemata.Proofs.Output.Ends
import Schemata.Proofs.Session.Outputs

/-!
# Translations end

A schema is compiled, its type is derived, and the output type of its type is built. All of this ends
for every schema, however its lazy schemas lead back into it, except that building the output type
needs an object on every cycle.
-/

namespace Schemata

namespace Scope

variable {scope : Scope}

/-- Compiling a schema ends and translates no lazy schema twice. Deriving its type ends and asks no
lazy schema for its target twice, whatever was derived before. If all its lazy schemas have targets,
it has a type, and if every cycle passes through an object, building the output type of the type ends,
whatever is derived in between and whatever is remembered of output types. -/
theorem translations_end {r₀ : Registry} (fresh : Fresh r₀) (limit : Nat) (before : List Schema)
    (s : Schema) :
    let r := (scope.inTurn before r₀).2
    let derived := (scope.staticType s).exec r
    ((∃ opened x, scope.Compiles limit .empty s opened x ∧ opened.Nodup ∧
        (scope.compile limit s).outcome =
          x.map fun (root, d) => { root, definitions := d.definitions }) ∧
      Ends (scope.compile limit s).outcome) ∧
    (Ends derived.1 ∧ ∃ asked : List NodeId, derived.2.asked = asked ++ r.asked ∧ asked.Nodup) ∧
    (scope.Grounded (fun _ => False) s → ∃ t, derived.1 = .ok t ∧
      (scope.Guarded s → ∀ after cache,
        Ends (((scope.inTurn after derived.2).2.names.outputOf limit t).exec cache).1)) := by
  intro r derived
  -- Some derivations before may have failed, so only the names of grounded schemas are relied on.
  obtain ⟨o, _, before', _⟩ :=
    (fresh.registered : scope.Registered scope.NamedIfGrounded r₀ _).inTurn
      scope.steady_namedIfGrounded before
  refine ⟨?_, ?_, ?_⟩
  · obtain ⟨opened, x, compiles, same⟩ := scope.compile_compiles limit s
    have once := compiles.translates.nodup List.nodup_nil
    refine ⟨⟨opened, x, compiles, once, same⟩, ?_⟩
    rw [same]
    exact compiles.ends.map _
  · obtain ⟨ends, once⟩ := scope.staticType_ends before'.ready s
    obtain ⟨asked, hasked, nodup, _⟩ := once.asked
    exact ⟨ends, asked, hasked, nodup⟩
  · intro ground
    obtain ⟨t, r₁, ht⟩ := (staticType_isOk_iff before'.ready s).mpr
      (ground.mono fun _ => False.elim)
    obtain ⟨o₁, _, after₁, _, described⟩ := before'.staticType scope.steady_namedIfGrounded s
    refine ⟨t, congrArg Prod.fst ht, fun guarded after cache => ?_⟩
    obtain ⟨o₂, le, after₂, owners, _⟩ := after₁.inTurn scope.steady_namedIfGrounded after
    refine after₂.outputOf_ends limit ?_ ground guarded cache
    refine (described t (congrArg Prod.fst ht)).mono owners fun _ _ => ?_
    exact scope.steady_namedIfGrounded.later le

/-- An array of itself has no object on its cycle. -/
example :
    let scope : Scope :=
      { defs := [("RING", .schema (.array 1 (.lazy 0)))], getters := [(0, .named "RING")] }
    let derived := (scope.staticType (.lazy 0)).exec .empty
    derived.1.toOption.map (fun t => ((derived.2.names.outputOf 64 t).exec []).1) =
      some (.error .endlessType) := by
  cbv

theorem labelled_grounded :
    Session.withLabelled.workshop.scope.Grounded (fun _ => False) Session.labelled := by
  intro id hid _
  obtain rfl : id = 0 := by simpa [Session.labelled] using Session.labelled_cases hid
  exact ⟨Session.labelled, rfl⟩

/-- The labelled tree is translated after a lazy schema without a target was tried in vain. -/
theorem translations_end_labelled :
    let scope := Session.withLabelled.workshop.scope
    let r := (scope.inTurn [.lazy 1] .empty).2
    let derived := (scope.staticType Session.labelled).exec r
    Fresh .empty ∧ scope.Grounded (fun _ => False) Session.labelled ∧
      scope.Guarded Session.labelled ∧ Ends (scope.compile 64 Session.labelled).outcome ∧
      ∃ t, derived.1 = .ok t ∧
        ∀ cache, Ends ((derived.2.names.outputOf 64 t).exec cache).1 := by
  intro scope r derived
  have fresh : Fresh .empty := ⟨rfl, rfl⟩
  obtain ⟨⟨_, ends⟩, _, typed⟩ := translations_end fresh 64 [.lazy 1] Session.labelled
  obtain ⟨t, ht, output⟩ := typed labelled_grounded
  exact ⟨fresh, labelled_grounded, Session.labelled_guarded, ends, t, ht,
    output Session.labelled_guarded []⟩

end Scope

end Schemata
