import Schemata.Proofs.Compilation.Success

/-!
# Compiling elsewhere

What compiling a schema gives depends on the scope and on the limit only in where lazy schemas lead
and which properties may be absent. Where these are decided alike, compiling gives the same.
-/

namespace Schemata

namespace Scope

open Compilation

/-- What is decided about the schemas that compiling `root` builds is decided likewise in another
scope under another limit. -/
structure Transfers (scope : Scope) (limit : Nat) (scope' : Scope) (limit' : Nat)
    (root : Schema) : Prop where
  force {id : NodeId} {t : Schema} : scope.Builds limit root (.lazy id) →
    (scope.force limit limit (.lazy id)).outcome = .ok t →
    (scope'.force limit' limit' (.lazy id)).outcome = .ok t
  absence {s : Schema} {kind : Option Kind} : scope.Builds limit root s →
    (scope.absence limit s).outcome = .ok kind → (scope'.absence limit' s).outcome = .ok kind

variable {scope scope' : Scope} {limit limit' : Nat}

theorem Transfers.of_builds {root s : Schema} (h : scope.Transfers limit scope' limit' root)
    (builds : scope.Builds limit root s) : scope.Transfers limit scope' limit' s where
  force hid := h.force (builds.trans hid)
  absence ht := h.absence (builds.trans ht)

theorem Transfers.child {s c : Schema} (h : scope.Transfers limit scope' limit' s)
    (hc : c ∈ s.children) : scope.Transfers limit scope' limit' c :=
  h.of_builds (.single (.child hc))

mutual

/-- The calls of a compilation that succeeds are made elsewhere, too. -/
theorem Compiles.transfer {d d' : Draft} {s : Schema} {opened : List NodeId} {p : Plan}
    {x : Except Failure (Plan × Draft)} :
    scope.Compiles limit d s opened x → x = .ok (p, d') → scope.Transfers limit scope' limit' s →
      scope'.Compiles limit' d s opened x
  | .leaf, _, _ => .leaf
  | .object h, hx, alike => by
    obtain ⟨_, hx, _⟩ := exists_of_mapResult hx
    refine .object (CompilesShape.transfer h hx (fun c hc => alike.child hc) ?_)
    exact fun c hc kind => alike.absence (.single (.child hc))
  | .composite hs h, hx, alike => by
    obtain ⟨_, hx, _⟩ := exists_of_mapResult hx
    exact .composite hs (CompilesAll.transfer h hx fun c hc => alike.child hc)
  | .reference hn, _, _ => .reference hn
  | .astray _ _, hx, _ => by cases hx
  | .target new ht h, hx, alike => by
    obtain ⟨_, hx, _⟩ := exists_of_map hx
    have behind := alike.of_builds (.single (.target ht))
    exact .target new (alike.force .refl ht) (Compiles.transfer h hx behind)

theorem CompilesAll.transfer {d d' : Draft} {ss : List Schema} {opened : List NodeId}
    {ps : List Plan} {x : Except Failure (List Plan × Draft)} :
    scope.CompilesAll limit d ss opened x → x = .ok (ps, d') →
      (∀ s ∈ ss, scope.Transfers limit scope' limit' s) → scope'.CompilesAll limit' d ss opened x
  | .nil, _, _ => .nil
  | .stop _, hx, _ => by cases hx
  | .cons h rest, hx, each => by
    obtain ⟨_, hx, _⟩ := exists_of_mapResult hx
    obtain ⟨first, others⟩ := List.forall_mem_cons.mp each
    exact .cons (Compiles.transfer h rfl first) (CompilesAll.transfer rest hx others)

theorem CompilesShape.transfer {d d' : Draft} {shape : List (String × Schema)}
    {opened : List NodeId} {fields : List (Field Plan)}
    {x : Except Failure (List (Field Plan) × Draft)} :
    scope.CompilesShape limit d shape opened x → x = .ok (fields, d') →
      (∀ s ∈ shape.map (·.2), scope.Transfers limit scope' limit' s) →
      (∀ s ∈ shape.map (·.2), ∀ kind, (scope.absence limit s).outcome = .ok kind →
        (scope'.absence limit' s).outcome = .ok kind) →
      scope'.CompilesShape limit' d shape opened x
  | .nil, _, _, _ => .nil
  | .stop _, hx, _, _ => by cases hx
  | .undecided _ _, hx, _, _ => by cases hx
  | .cons h habsence rest, hx, each, decided => by
    obtain ⟨_, hx, _⟩ := exists_of_mapResult hx
    obtain ⟨first, others⟩ := List.forall_mem_cons.mp each
    obtain ⟨here, elsewhere⟩ := List.forall_mem_cons.mp decided
    exact .cons (Compiles.transfer h rfl first) (here _ habsence)
      (CompilesShape.transfer rest hx others elsewhere)

end

/-- Where everything is decided alike, compiling a schema gives the same validator. -/
theorem compile_transfer {s : Schema} {v : Validator}
    (h : scope.Transfers limit scope' limit' s) (hv : (scope.compile limit s).outcome = .ok v) :
    (scope'.compile limit' s).outcome = .ok v := by
  obtain ⟨opened, d, compiles, hdefinitions⟩ := compile_eq_ok_iff.mp hv
  exact compile_eq_ok_iff.mpr ⟨opened, d, compiles.transfer rfl h, hdefinitions⟩

/-! ## Larger scopes -/

/-- A scope has the targets of another one. -/
structure Within (scope scope' : Scope) : Prop where
  target {id : NodeId} {s : Schema} : scope.target id = .ok s → scope'.target id = .ok s

theorem Within.force (h : scope.Within scope') {budget : Nat} {s t : Schema}
    (ht : (scope.force limit budget s).outcome = .ok t) :
    (scope'.force limit budget s).outcome = .ok t := by
  induction budget generalizing s with
  | zero => cases ht
  | succ budget ih =>
    cases s with
    | lazy id =>
      obtain ⟨next, hnext, ht⟩ := Trail.exists_of_outcome_bind ht
      simpa [Scope.force, h.target hnext] using ih ht
    | _ => exact ht

theorem Within.absence (h : scope.Within scope') {budget : Nat} {s : Schema} {kind : Option Kind}
    (hkind : (scope.absence budget s).outcome = .ok kind) :
    (scope'.absence budget s).outcome = .ok kind := by
  induction budget generalizing s with
  | zero => exact hkind
  | succ budget ih =>
    cases s with
    | lazy id =>
      obtain ⟨next, hnext, hkind⟩ := Trail.exists_of_outcome_bind hkind
      simpa [Scope.absence, h.target hnext] using ih hkind
    | wrapper id w inner =>
      cases w with
      | nullable | readonly => exact ih hkind
      | optional | default => exact hkind
    | pipe id input output => exact ih hkind
    | _ => exact hkind

/-- A schema that compiles goes on to compile to the same validator when further schemas are made.
-/
theorem Within.compile (h : scope.Within scope') {s : Schema} {v : Validator}
    (hv : (scope.compile limit s).outcome = .ok v) : (scope'.compile limit s).outcome = .ok v :=
  compile_transfer ⟨fun _ => h.force, fun _ => h.absence⟩ hv

end Scope

end Schemata
