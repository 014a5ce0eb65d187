import Schemata.Proofs.Derivation.References
import Schemata.Proofs.Derivation.Success

/-!
# Derivations in turn

Schemas are derived one after another from one registry, some of them in vain. What a derivation that
fails leaves behind may refer to names that were taken back, but only to those of lazy schemas that
are not grounded. So a grounded schema can rely on every name that its type refers to.
-/

namespace Schemata

namespace Scope

variable {scope : Scope} {r r' : Registry} {o o' : Owners}

/-! ## Registered types -/

/-- What the references in registered types may stand for, however derivations end. -/
structure Steady (scope : Scope) (gives : Registry → NodeId → String → Prop) : Prop where
  named {r : Registry} {id : NodeId} {n : String} : r.Named id n → gives r id n
  later {r r' : Registry} {id : NodeId} {n : String} : r.Le r' → gives r id n → gives r' id n
  left {r r' : Registry} {id : NodeId} {n : String} : scope.LeftBehind r r' id n → gives r' id n

theorem Fresh.registered {gives : Registry → NodeId → String → Prop} (h : Fresh r) :
    scope.Registered gives r fun _ => none where
  ready := h.ready
  entries hn := absurd hn (h.not_named _ _)

/-- However a derivation ends, every name has a type in the end, and a type that the derivation gives
describes the schema. -/
theorem Registered.staticType {gives : Registry → NodeId → String → Prop}
    (h : scope.Registered gives r o) (steady : scope.Steady gives) (s : Schema) :
    ∃ o', r.Le ((scope.staticType s).exec r).2 ∧
      scope.Registered gives ((scope.staticType s).exec r).2 o' ∧
      (∀ k shape, o k = some shape → o' k = some shape) ∧
      ∀ t, ((scope.staticType s).exec r).1 = .ok t →
        DescribesDerived o' (gives ((scope.staticType s).exec r).2) s t := by
  have run := scope.staticType_run h.ready s
  generalize (scope.staticType s).exec r = x at run ⊢
  cases run with
  | @ok t r' o' grows _ ht =>
    have after := h.grows grows (fun _ _ => steady.later grows.le) fun _ _ => steady.named
    refine ⟨o', grows.le, after, fun _ _ => grows.owners, ?_⟩
    rintro _ ⟨⟩
    exact ht.mono (fun _ _ hk => hk) fun _ _ => steady.named
  | @error failure r' o' id grows =>
    have after := h.grows grows (fun _ _ => steady.later grows.le) fun _ _ => steady.left
    exact ⟨o', grows.le, after, fun _ _ => grows.owners, by rintro _ ⟨⟩⟩

/-- The answers of derivations that are made in turn, and the registry after them. -/
def inTurn (scope : Scope) : List Schema → Registry → List (Except Failure StaticType) × Registry
  | [], r => ([], r)
  | s :: rest, r =>
    let first := (scope.staticType s).exec r
    let others := scope.inTurn rest first.2
    (first.1 :: others.1, others.2)

theorem Registered.inTurn {gives : Registry → NodeId → String → Prop}
    (h : scope.Registered gives r o) (steady : scope.Steady gives) (ss : List Schema) :
    ∃ o', r.Le (scope.inTurn ss r).2 ∧ scope.Registered gives (scope.inTurn ss r).2 o' ∧
      (∀ k shape, o k = some shape → o' k = some shape) ∧
      ∀ t, .ok t ∈ (scope.inTurn ss r).1 →
        ∃ s, DescribesDerived o' (gives (scope.inTurn ss r).2) s t := by
  induction ss generalizing r o with
  | nil => exact ⟨o, .refl r, h, fun _ _ hk => hk, fun _ ht => absurd ht List.not_mem_nil⟩
  | cons s ss ih =>
    obtain ⟨o₁, le₁, after₁, owners₁, described₁⟩ := h.staticType steady s
    obtain ⟨o₂, le₂, after₂, owners₂, described₂⟩ := ih after₁
    refine ⟨o₂, le₁.trans le₂, after₂, fun k shape hk => owners₂ k shape (owners₁ k shape hk), ?_⟩
    intro t ht
    rcases List.mem_cons.mp ht with ht | ht
    · exact ⟨s, (described₁ t ht.symm).mono owners₂ fun _ _ => steady.later le₂⟩
    · exact described₂ t ht

/-! ## Grounded schemas -/

/-- What a reference may stand for after derivations of which some have failed: the name of a lazy
schema, unless that is not grounded. -/
def NamedIfGrounded (scope : Scope) (r : Registry) (id : NodeId) (n : String) : Prop :=
  scope.Grounded (fun _ => False) (.lazy id) → r.Named id n

/-- What a reference in the type of a grounded schema stands for. -/
def NamedAndGrounded (scope : Scope) (r : Registry) (id : NodeId) (n : String) : Prop :=
  r.Named id n ∧ scope.Grounded (fun _ => False) (.lazy id)

variable (scope) in
theorem steady_namedIfGrounded : scope.Steady scope.NamedIfGrounded where
  named hn _ := hn
  later le h ground := le.named (h ground)
  left := by
    rintro r r' id n (hn | ⟨_, stuck⟩) ground
    · exact hn
    · exact absurd (ground.mono fun _ => False.elim) stuck

/-- A grounded schema reaches grounded lazy schemas only. -/
theorem describes_of_grounded {s : Schema} {t : StaticType}
    (h : DescribesDerived o (scope.NamedIfGrounded r) s t)
    (ground : scope.Grounded (fun _ => False) s) :
    DescribesDerived o (scope.NamedAndGrounded r) s t := by
  refine h.restrict scope (fun _ => False) (fun _ _ h => h) ?_
  intro id n _ hreach named
  have behind := ground.of_reaches hreach
  exact ⟨named behind, behind⟩

/-- The name of a grounded lazy schema has a type, with such names only. -/
theorem Registered.grounded (h : scope.Registered scope.NamedIfGrounded r o) {id : NodeId}
    {n : String} (hn : scope.NamedAndGrounded r id n) :
    ∃ s t, scope.target id = .ok s ∧ r.names.derived.lookup n = some t
      ∧ DescribesDerived o (scope.NamedAndGrounded r) s t := by
  obtain ⟨named, ground⟩ := hn
  obtain ⟨s, t, htarget, hlookup, ht⟩ := h.entries named
  refine ⟨s, t, htarget, hlookup, describes_of_grounded ht ?_⟩
  exact ground.step (.target (fun h => h) htarget)

end Scope

end Schemata
