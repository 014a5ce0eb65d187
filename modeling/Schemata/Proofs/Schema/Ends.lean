import Schemata.Plan.OfSchema

/-!
# Computations that end

Every computation that follows lazy schemas has a bound on how deep it goes, and fails when the bound
is used up. A computation that does not fail so has ended by itself, with a result or with a failure
of its own. Looking behind lazy schemas always ends.
-/

namespace Schemata

/-- A computation with this outcome has not used up the bound on its depth. -/
def Ends {α : Type} (x : Except Failure α) : Prop :=
  x ≠ .error .endlessType

namespace Ends

variable {α β : Type}

theorem ok (a : α) : Ends (.ok a) := by
  rintro ⟨⟩

theorem error_iff {failure : Failure} :
    Ends (.error failure : Except Failure α) ↔ failure ≠ .endlessType := by
  simp [Ends]

/-- A failure ends one computation just when it ends another. -/
theorem of_error {failure : Failure} (h : Ends (.error failure : Except Failure α)) :
    Ends (.error failure : Except Failure β) :=
  error_iff.mpr (error_iff.mp h)

theorem map {x : Except Failure α} (h : Ends x) (f : α → β) : Ends (x.map f) := by
  cases x with
  | error failure => exact h.of_error
  | ok a => exact .ok _

theorem bind {x : Except Failure α} (h : Ends x) {f : α → Except Failure β} (next : ∀ a, Ends (f a)) :
    Ends (x >>= f) := by
  cases x with
  | error failure => exact h.of_error
  | ok a => exact next a

theorem anyM {l : List α} {p : α → Except Failure Bool} (h : ∀ a ∈ l, Ends (p a)) :
    Ends (l.anyM p) := by
  induction l with
  | nil => exact .ok _
  | cons a rest ih =>
    obtain ⟨first, others⟩ := List.forall_mem_cons.mp h
    refine first.bind fun found => ?_
    cases found with
    | true => exact .ok _
    | false => exact ih others

theorem foldlM {l : List α} {f : β → α → Except Failure β} (h : ∀ b, ∀ a ∈ l, Ends (f b a)) (b : β) :
    Ends (l.foldlM f b) := by
  induction l generalizing b with
  | nil => exact .ok _
  | cons a rest ih =>
    rw [List.foldlM_cons]
    refine (h b a List.mem_cons_self).bind fun b' => ?_
    exact ih (fun b a ha => h b a (List.mem_cons_of_mem _ ha)) b'

end Ends

namespace Scope

variable (scope : Scope)

theorem target_ends (id : NodeId) : Ends (scope.target id) := by
  unfold target
  split
  · rintro ⟨⟩
  next getter _ =>
    cases getter with
    | named name =>
      change Ends (((scope.lookup? name).getD (.value .none)).require (Failure.notASchema .target))
      cases (scope.lookup? name).getD (.value .none) <;> rintro ⟨⟩
    | value v => rintro ⟨⟩
    | fails text => rintro ⟨⟩

/-- Asking a lazy schema ends if going on from its target does. -/
theorem ask_bind_ends {α : Type} (id : NodeId) {f : Schema → Trail NodeId α}
    (h : ∀ t, Ends (f t).outcome) : Ends (scope.ask id >>= f).outcome := by
  rw [Trail.outcome_bind, outcome_ask]
  cases htarget : scope.target id with
  | error failure => exact (htarget ▸ scope.target_ends id).of_error
  | ok t => exact h t

theorem force_ends (limit budget : Nat) (s : Schema) :
    Ends (scope.force limit budget s).outcome := by
  induction budget generalizing s with
  | zero => rintro ⟨⟩
  | succ budget ih =>
    cases s with
    | lazy id => exact scope.ask_bind_ends id ih
    | _ => rintro ⟨⟩

theorem absence_ends (budget : Nat) (s : Schema) : Ends (scope.absence budget s).outcome := by
  induction budget generalizing s with
  | zero => rintro ⟨⟩
  | succ budget ih =>
    cases s with
    | lazy id => exact scope.ask_bind_ends id ih
    | pipe _ input _ => exact ih input
    | wrapper _ w inner =>
      cases w with
      | nullable | readonly => exact ih inner
      | optional | default => rintro ⟨⟩
    | _ => rintro ⟨⟩

end Scope

theorem planOfLeaf_ends (l : Leaf) (d : Draft) : Ends ((Scope.planOfLeaf l).run d).outcome := by
  cases l <;> rintro ⟨⟩

end Schemata
