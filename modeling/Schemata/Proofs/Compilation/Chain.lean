import Mathlib
import Schemata.Proofs.Compilation.Success
import Schemata.Proofs.Traversal.Moves

/-!
# Chains of lazy schemas

Lazy schemas in a row, before a schema that is no wrapper. Both a move along a path and compiling
follow such a chain within the limit, but they count differently: a move looks through as many lazy
schemas as the limit says, while compiling looks at that many schemas, the one at the end included.
-/

namespace Schemata

namespace Scope

/-- A schema that is no wrapper behind `n` lazy schemas in a row. -/
inductive LazyChain (scope : Scope) : Nat → Schema → Schema → Prop
  | last {t : Schema} : t.isWrapper = false → LazyChain scope 0 t t
  | link {n : Nat} {id : NodeId} {s t : Schema} : scope.target id = .ok s → LazyChain scope n s t →
    LazyChain scope (n + 1) (.lazy id) t

variable {scope : Scope} {n limit : Nat} {id : NodeId} {s t : Schema}

namespace LazyChain

theorem solid (h : scope.LazyChain n s t) : t.isWrapper = false := by
  induction h with
  | last solid => exact solid
  | link _ _ ih => exact ih

theorem behind (h : scope.LazyChain n s t) : scope.Behind n s t := by
  induction h with
  | last => exact .zero
  | link found _ ih => exact .succ (.target found) ih

/-- Before the end of the chain there are wrappers only. -/
theorem exists_behind (h : scope.LazyChain n s t) {m : Nat} (hm : m < n) :
    ∃ u, scope.Behind m s u ∧ u.isWrapper = true := by
  induction h generalizing m with
  | last => exact absurd hm (Nat.not_lt_zero m)
  | @link n id s t found _ ih =>
    cases m with
    | zero => exact ⟨.lazy id, .zero, rfl⟩
    | succ m =>
      obtain ⟨u, behind, hu⟩ := ih (Nat.lt_of_succ_lt_succ hm)
      exact ⟨u, .succ (.target found) behind, hu⟩

/-! ## Compiling -/

/-- The schema at the end is one of those that are looked at. -/
theorem outcome_force (h : scope.LazyChain n s t) (limit budget : Nat) :
    (scope.force limit budget s).outcome
      = if n < budget then .ok t else .error (.endlessLazy limit) := by
  induction h generalizing budget with
  | @last t solid =>
    cases budget with
    | zero => rfl
    | succ budget =>
      rw [if_pos budget.succ_pos]
      cases t with
      | lazy => cases solid
      | _ => rfl
  | @link n id s t found _ ih =>
    cases budget with
    | zero => rfl
    | succ budget =>
      simp [force, found, ih budget]

theorem outcome_force_of_lt (h : scope.LazyChain n s t) (hn : n < limit) :
    (scope.force limit limit s).outcome = .ok t := by
  rw [h.outcome_force, if_pos hn]

theorem outcome_force_of_le (h : scope.LazyChain n s t) (hn : limit ≤ n) :
    (scope.force limit limit s).outcome = .error (.endlessLazy limit) := by
  rw [h.outcome_force, if_neg (Nat.not_lt.mpr hn)]

end LazyChain

/-- Compiling a lazy schema builds what it is forced to. -/
theorem compilable_lazy_iff (forced : (scope.force limit limit (.lazy id)).outcome = .ok t) :
    scope.Compilable limit (.lazy id) ↔ scope.Compilable limit t := by
  constructor
  · intro compilable
    exact compilable.of_builds (.single (.target forced))
  · intro compilable u builds
    rcases Relation.ReflTransGen.cases_head builds with rfl | ⟨s, next, builds⟩
    · exact ⟨t, forced⟩
    · cases next with
      | child hmem => cases hmem
      | target forced' =>
        obtain rfl := Except.ok.inj (forced.symm.trans forced')
        exact compilable u builds

/-- A lazy schema that cannot be forced is not compiled. -/
theorem outcome_compile_of_force {failure : Failure}
    (fails : (scope.force limit limit (.lazy id)).outcome = .error failure) :
    (scope.compile limit (.lazy id)).outcome = .error failure := by
  obtain ⟨opened, x, compiles, same⟩ := scope.compile_compiles limit (.lazy id)
  rw [same]
  cases compiles with
  | reference hn => cases hn
  | astray _ fails' =>
    obtain rfl := Except.error.inj (fails.symm.trans fails')
    rfl
  | target _ forced => cases fails.symm.trans forced
  | composite hs => cases hs

/-! ## The limit -/

/-- A chain of lazy schemas is forced just when the limit exceeds its length. Then the lazy schema in
front is compiled just when the end of the chain is, and otherwise compiling fails for the limit. A
move through the chain fails for the limit just when the chain is longer than the limit. So the two
differ on the chains that are as long as the limit, and on no others. -/
theorem lazyChain_forced_iff (chain : scope.LazyChain n (.lazy id) t) (limit : Nat) :
    let compiled s := (scope.compile limit s).outcome
    ((scope.force limit limit (.lazy id)).outcome = .ok t ↔ n < limit) ∧
    (n < limit → ((∃ v, compiled (.lazy id) = .ok v) ↔ ∃ v, compiled t = .ok v)) ∧
    (limit ≤ n → compiled (.lazy id) = .error (.endlessLazy limit)) ∧
    ∀ path segment, (scope.view.step limit path (.lazy id) segment).outcome
      = .error (.resolution path (.unwrapLimit limit)) ↔ limit < n := by
  intro compiled
  refine ⟨?_, ?_, ?_, ?_⟩
  · constructor
    · intro forced
      by_contra short
      rw [chain.outcome_force_of_le (Nat.not_lt.mp short)] at forced
      cases forced
    · exact chain.outcome_force_of_lt
  · intro hn
    rw [compile_isOk_iff, compile_isOk_iff]
    exact compilable_lazy_iff (chain.outcome_force_of_lt hn)
  · intro hn
    exact outcome_compile_of_force (chain.outcome_force_of_le hn)
  · intro path segment
    constructor
    · intro fails
      by_contra enough
      have unwrapped : (scope.view.unwrap limit path (.lazy id)).outcome = .ok t :=
        outcome_unwrap_of_behind (Nat.not_lt.mp enough) chain.behind chain.solid
      rw [View.step, Trail.bind_of_ok unwrapped] at fails
      change scope.view.child path t segment = _ at fails
      rcases t.hasChild_or_lacks segment with ⟨u, child⟩ | ⟨obstacle, lacks⟩
      · rw [child.child scope path] at fails
        cases fails
      · rw [lacks.child scope path] at fails
        cases fails
        cases lacks
    · intro hn
      obtain ⟨u, behind, hu⟩ := chain.exists_behind hn
      exact (Blocked.limit behind hu).outcome_step

/-- Rows of texts. -/
def texts : Schema :=
  .array 1 (.leaf 2 (.string true))

/-- Rows of texts behind one lazy schema. -/
def withTexts : Scope :=
  { defs := [("TEXTS", .schema texts)], getters := [(0, .named "TEXTS")] }

theorem withTexts_chain : withTexts.LazyChain 1 (.lazy 0) texts :=
  .link rfl (.last rfl)

/-- When two are allowed, a chain of one lazy schema is forced and compiled. -/
theorem lazyChain_forced_iff_texts :
    withTexts.LazyChain 1 (.lazy 0) texts ∧
    (withTexts.force 2 2 (.lazy 0)).outcome = .ok texts ∧
    ∃ v, (withTexts.compile 2 (.lazy 0)).outcome = .ok v := by
  have settled := lazyChain_forced_iff withTexts_chain 2
  refine ⟨withTexts_chain, settled.1.mpr (by decide), (settled.2.1 (by decide)).mpr ?_⟩
  exact ⟨{ root := .list (.string true), definitions := [] }, by cbv⟩

/-- A path steps through a chain of one lazy schema when one is allowed, and yet the lazy schema
cannot be compiled. -/
theorem chain_as_long_as_limit_not_forced :
    withTexts.LazyChain 1 (.lazy 0) texts ∧
    ¬ ((withTexts.force 1 1 (.lazy 0)).outcome = .ok texts ↔ 1 ≤ 1) ∧
    (withTexts.compile 1 (.lazy 0)).outcome = .error (.endlessLazy 1) ∧
    (withTexts.view.step 1 "[]" (.lazy 0) .element).outcome = .ok (.leaf 2 (.string true)) := by
  refine ⟨withTexts_chain, ?_, ?_, ?_⟩
  · intro same
    have forced := same.mpr (Nat.le_refl 1)
    rw [withTexts_chain.outcome_force_of_le (Nat.le_refl 1)] at forced
    cases forced
  · exact outcome_compile_of_force (withTexts_chain.outcome_force_of_le (Nat.le_refl 1))
  · exact Moves.outcome_step
      ⟨1, texts, Nat.le_refl 1, withTexts_chain.behind, rfl, .element⟩ "[]"

end Scope

end Schemata
