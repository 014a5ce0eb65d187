import Mathlib
import Schemata.Proofs.Compilation.Chain

/-!
# Schemas that forward to others

A lazy schema becomes a reference, and a read-only schema becomes what its inner schema becomes. Both
forward to another schema, and what they validate is up to that one. A definition may therefore be
nothing but a reference to a definition; it says something only if following such references ends.
-/

namespace Schemata

/-- The schemas that forward to another one. -/
def Schema.isForwarding : Schema → Bool
  | .lazy _ | .wrapper _ .readonly _ => true
  | _ => false

/-- Following definitions that are bare references ends at a definition that is not. -/
inductive Validator.Arrives (v : Validator) : Nat → Prop
  | body {n : Nat} {p : Plan} : v.definition? n = some p → (∀ k, p ≠ .reference k) → Arrives v n
  | link {n k : Nat} : v.definition? n = some (.reference k) → Arrives v k → Arrives v n

/-- A definition that refers to itself leads nowhere. -/
theorem Validator.not_arrives_of_self {v : Validator} {n : Nat}
    (self : v.definition? n = some (.reference n)) : ¬ v.Arrives n := by
  intro arrives
  induction arrives with
  | body found solid => exact solid _ (Option.some.inj (found.symm.trans self))
  | link found _ ih =>
    cases found.symm.trans self
    exact ih self

namespace Scope

section

variable (scope : Scope)

/-- One schema forwards to another. -/
inductive Forwards : Schema → Schema → Prop
  | target {id : NodeId} {t : Schema} : scope.target id = .ok t → Forwards (.lazy id) t
  | inner {id : NodeId} {inner : Schema} : Forwards (.wrapper id .readonly inner) inner

/-- Forwarding any number of times. -/
abbrev ForwardsTo : Schema → Schema → Prop :=
  Relation.ReflTransGen scope.Forwards

/-- Forwarding ends at a schema that does not forward. -/
inductive Arrives : Schema → Prop
  | here {s : Schema} : s.isForwarding = false → Arrives s
  | there {s t : Schema} : scope.Forwards s t → Arrives t → Arrives s

/-- Forwarding goes on forever. -/
def Endless (s : Schema) : Prop :=
  ∀ t, scope.ForwardsTo s t → ∃ u, scope.Forwards t u

/-- A schema with which `n` lazy schemas in a row begin. -/
inductive LazyRow : Nat → Schema → Prop
  | zero {s : Schema} : LazyRow 0 s
  | succ {n : Nat} {id : NodeId} {t : Schema} : scope.target id = .ok t → LazyRow n t →
    LazyRow (n + 1) (.lazy id)

end

variable {scope : Scope} {limit budget n m k : Nat} {id : NodeId} {s t u : Schema} {p : Plan}

/-! ## Forwarding -/

theorem Forwards.det (h : scope.Forwards s t) (h' : scope.Forwards s u) : t = u := by
  cases h with
  | target found =>
    cases h' with
    | target found' => exact Except.ok.inj (found.symm.trans found')
  | inner =>
    cases h'
    rfl

theorem Forwards.isForwarding (h : scope.Forwards s t) : s.isForwarding = true := by
  cases h <;> rfl

theorem Forwards.arrives_iff (h : scope.Forwards s t) : scope.Arrives s ↔ scope.Arrives t := by
  refine ⟨fun arrives => ?_, .there h⟩
  cases arrives with
  | here solid =>
    rw [h.isForwarding] at solid
    cases solid
  | there h' arrives => exact h.det h' ▸ arrives

theorem ForwardsTo.arrives_iff (h : scope.ForwardsTo s t) :
    scope.Arrives s ↔ scope.Arrives t := by
  induction h with
  | refl => rfl
  | tail _ next ih => exact ih.trans next.arrives_iff

namespace Endless

theorem of_forwardsTo (h : scope.Endless s) (chain : scope.ForwardsTo s t) : scope.Endless t :=
  fun u hu => h u (chain.trans hu)

theorem isForwarding (h : scope.Endless s) : s.isForwarding = true := by
  obtain ⟨_, next⟩ := h s .refl
  exact next.isForwarding

theorem not_arrives (h : scope.Endless s) : ¬ scope.Arrives s := by
  intro arrives
  induction arrives with
  | here solid =>
    rw [h.isForwarding] at solid
    cases solid
  | there next _ ih => exact ih (h.of_forwardsTo (.single next))

/-- A schema that forwards has no child but the one to which it forwards. -/
theorem forwards_child (h : scope.Endless s) (hc : t ∈ s.children) : scope.Forwards s t := by
  obtain ⟨u, next⟩ := h s .refl
  cases next with
  | target => cases hc
  | inner =>
    obtain rfl := List.mem_singleton.mp hc
    exact .inner

end Endless

/-! ## Forcing -/

theorem forwardsTo_of_force (h : (scope.force limit budget s).outcome = .ok t) :
    scope.ForwardsTo s t := by
  induction budget generalizing s with
  | zero => cases h
  | succ budget ih =>
    cases s with
    | lazy id =>
      obtain ⟨u, hu, h⟩ := Trail.exists_of_outcome_bind h
      exact .head (.target hu) (ih h)
    | _ =>
      cases h
      exact .refl

/-- Forcing leaves a wrapper alone. -/
theorem eq_of_force_wrapper {w : Wrapper} {inner : Schema}
    (h : (scope.force limit budget (.wrapper id w inner)).outcome = .ok t) :
    t = .wrapper id w inner := by
  cases budget with
  | zero => cases h
  | succ => exact (Except.ok.inj h).symm

/-- Forcing a lazy schema forces its target, with one look less. -/
theorem exists_force_of_target (found : scope.target id = .ok t)
    (h : (scope.force limit budget (.lazy id)).outcome = .ok u) :
    ∃ rest, budget = rest + 1 ∧ (scope.force limit rest t).outcome = .ok u := by
  cases budget with
  | zero => cases h
  | succ rest =>
    exact ⟨rest, rfl, by simpa [force, found] using h⟩

theorem LazyRow.anti (h : scope.LazyRow n s) (le : m ≤ n) : scope.LazyRow m s := by
  induction h generalizing m with
  | zero =>
    obtain rfl := Nat.le_zero.mp le
    exact .zero
  | succ found _ ih =>
    cases m with
    | zero => exact .zero
    | succ m => exact .succ found (ih (Nat.le_of_succ_le_succ le))

/-- Forcing gives up when all that it may look at is lazy. -/
theorem LazyRow.outcome_force (h : scope.LazyRow n s) :
    (scope.force limit n s).outcome = .error (.endlessLazy limit) := by
  induction h with
  | zero => rfl
  | @succ n id t found _ ih =>
    simpa [force, found] using ih

/-- As long as forwarding goes on, forcing has no other reason to fail. -/
theorem Endless.exists_force (h : scope.Endless s) (short : ¬ scope.LazyRow budget s) :
    ∃ t, (scope.force limit budget s).outcome = .ok t := by
  induction budget generalizing s with
  | zero => exact absurd .zero short
  | succ budget ih =>
    obtain ⟨t, next⟩ := h s .refl
    cases next with
    | @target id t found =>
      have later := ih (h.of_forwardsTo (.single (.target found))) fun row => short (.succ found row)
      simpa [force, found] using later
    | inner => exact ⟨_, rfl⟩

theorem Endless.force_cases (h : scope.Endless s) (limit budget : Nat) :
    (∃ t, (scope.force limit budget s).outcome = .ok t) ∨
      (scope.force limit budget s).outcome = .error (.endlessLazy limit) := by
  by_cases row : scope.LazyRow budget s
  · exact .inr row.outcome_force
  · exact .inl (h.exists_force row)

/-! ## Definitions that are bare references -/

section

variable {number : NodeId → Nat → Prop}

/-- A read-only schema has the plans of its inner schema. -/
theorem plans_of_readonly {inner : Schema}
    (h : scope.Plans limit number (.wrapper id .readonly inner) p) :
    scope.Plans limit number inner p := by
  cases h with
  | wrapper hp => exact hp

/-- Schemas that do not forward have plans that are more than a reference. -/
theorem Plans.ne_reference (h : scope.Plans limit number s p) (solid : s.isForwarding = false) :
    p ≠ .reference k := by
  cases h with
  | @leaf id l p hp =>
    rintro rfl
    cases l with
    | base => exact planOfLeaf_base_ne hp
    | _ => cases Compilation.pure_inj hp
  | @wrapper id w inner p hp =>
    cases w with
    | readonly => cases solid
    | _ => nofun
  | lazy => cases solid
  | _ => nofun

/-- A plan that is a bare reference refers to a lazy schema to which the schema forwards. -/
theorem Plans.exists_lazy : {s : Schema} → scope.Plans limit number s (.reference k) →
    ∃ id, number id k ∧ scope.ForwardsTo s (.lazy id)
  | .lazy id, h => by
    cases h with
    | lazy hn => exact ⟨id, hn, .refl⟩
  | .wrapper _ .readonly _, h => by
    obtain ⟨id, hn, chain⟩ := Plans.exists_lazy (plans_of_readonly h)
    exact ⟨id, hn, .head .inner chain⟩
  | .wrapper _ .optional _, h | .wrapper _ .nullable _, h | .wrapper _ (.default _) _, h
  | .leaf .., h | .object .., h | .array .., h | .record .., h | .tuple .., h | .union .., h
  | .pipe .., h => absurd rfl (h.ne_reference rfl)

/-- A schema whose plan is more than a reference does not forward forever. -/
theorem Plans.arrives : {s : Schema} → scope.Plans limit number s p → (∀ k, p ≠ .reference k) →
    scope.Arrives s
  | .lazy _, h, solid => by
    cases h
    exact absurd rfl (solid _)
  | .wrapper _ .readonly _, h, solid => .there .inner (Plans.arrives (plans_of_readonly h) solid)
  | .wrapper _ .optional _, _, _ | .wrapper _ .nullable _, _, _ | .wrapper _ (.default _) _, _, _
  | .leaf .., _, _ | .object .., _, _ | .array .., _, _ | .record .., _, _ | .tuple .., _, _
  | .union .., _, _ | .pipe .., _, _ => .here rfl

end

namespace Finished

variable {root : Plan} {d : Draft} {v : Validator}

theorem arrives_lazy (h : scope.Finished limit s d root) (hv : v.definitions = d.definitions)
    (arrives : v.Arrives n) (hn : d.Numbers id n) : scope.Arrives (.lazy id) := by
  induction arrives generalizing id with
  | @body n p found solid =>
    obtain ⟨t, q, forced, defined, plans⟩ := h.definition hn
    rw [Validator.definition?, hv, defined] at found
    obtain rfl := Option.some.inj found
    exact (ForwardsTo.arrives_iff (forwardsTo_of_force forced)).mpr (plans.arrives solid)
  | @link n k found _ ih =>
    obtain ⟨t, q, forced, defined, plans⟩ := h.definition hn
    rw [Validator.definition?, hv, defined] at found
    obtain rfl := Option.some.inj found
    obtain ⟨id', hk, chain⟩ := plans.exists_lazy
    exact (ForwardsTo.arrives_iff ((forwardsTo_of_force forced).trans chain)).mpr (ih hk)

/-- If forwarding from a schema ends, so does following references from the definition that its plan
refers to. Lazy schemas in the middle of a row need not have numbers, so the same is said of what the
schema is forced to. -/
theorem arrives_reference (h : scope.Finished limit s d root) (hv : v.definitions = d.definitions)
    (arrives : scope.Arrives t) :
    (∀ k, scope.Plans limit d.Numbers t (.reference k) → v.Arrives k) ∧
    ∀ budget u k, (scope.force limit budget t).outcome = .ok u →
      scope.Plans limit d.Numbers u (.reference k) → v.Arrives k := by
  induction arrives with
  | @here t solid =>
    have never (k : Nat) (plans : scope.Plans limit d.Numbers t (.reference k)) : v.Arrives k :=
      absurd rfl (plans.ne_reference solid)
    refine ⟨never, fun budget u k forced => ?_⟩
    rcases Relation.ReflTransGen.cases_head (forwardsTo_of_force forced) with rfl | ⟨_, next, _⟩
    · exact never k
    · rw [next.isForwarding] at solid
      cases solid
  | there next _ ih =>
    cases next with
    | @target id t found =>
      constructor
      · intro n plans
        cases plans with
        | lazy hn =>
          obtain ⟨u, p, forced, defined, plans⟩ := h.definition hn
          rw [← hv] at defined
          -- A definition that is nothing but a reference is what links the rows of references.
          by_cases bare : ∃ k, p = .reference k
          · obtain ⟨k, rfl⟩ := bare
            obtain ⟨rest, _, behind⟩ := exists_force_of_target found forced
            exact .link defined (ih.2 rest u k behind plans)
          · exact .body defined fun k hk => bare ⟨k, hk⟩
      · intro budget u k forced
        obtain ⟨rest, _, behind⟩ := exists_force_of_target found forced
        exact ih.2 rest u k behind
    | inner =>
      refine ⟨fun k plans => ih.1 k (plans_of_readonly plans), fun budget u k forced plans => ?_⟩
      obtain rfl := eq_of_force_wrapper forced
      exact ih.1 k (plans_of_readonly plans)

/-- The numbers of the definitions are those of the lazy schemas that were built. -/
theorem exists_numbers_of_definition (h : scope.Finished limit s d root)
    (hv : v.definitions = d.definitions) (found : v.definition? n = some p) :
    ∃ id t, d.Numbers id n ∧ scope.Builds limit s (.lazy id) ∧
      (scope.force limit limit (.lazy id)).outcome = .ok t ∧ scope.Plans limit d.Numbers t p := by
  rw [Validator.definition?, hv] at found
  obtain ⟨id, t, hn, forced, plans⟩ := h.sound n p (mem_of_lookup found)
  exact ⟨id, t, hn, h.built id hn.mem_reached, forced, plans⟩

theorem arrives_iff (h : scope.Finished limit s d root) (hv : v.definitions = d.definitions)
    (hn : d.Numbers id n) : v.Arrives n ↔ scope.Arrives (.lazy id) :=
  ⟨fun arrives => h.arrives_lazy hv arrives hn,
    fun arrives => (h.arrives_reference hv arrives).1 n (.lazy hn)⟩

end Finished

/-! ## Forwarding forever -/

namespace Endless

theorem forwardsTo_of_builds (h : scope.Endless s) (builds : scope.Builds limit s t) :
    scope.ForwardsTo s t := by
  induction builds with
  | refl => exact .refl
  | tail _ next ih =>
    cases next with
    | child hc => exact ih.tail ((h.of_forwardsTo ih).forwards_child hc)
    | target forced => exact ih.trans (forwardsTo_of_force forced)

/-- Whatever is forwarded to is built, or it stands in a row of lazy schemas whose end is built. -/
theorem builds_or_force (compilable : scope.Compilable limit s) (chain : scope.ForwardsTo s t) :
    scope.Builds limit s t ∨
      ∃ budget u, budget ≤ limit ∧ (scope.force limit budget t).outcome = .ok u ∧
        scope.Builds limit s u := by
  induction chain with
  | refl => exact .inl .refl
  | @tail t w _ next ih =>
    cases next with
    | @target id w found =>
      rcases ih with builds | ⟨budget, u, le, forced, builds⟩
      · obtain ⟨u, forced⟩ := compilable _ builds
        obtain ⟨rest, rfl, behind⟩ := exists_force_of_target found forced
        exact .inr ⟨rest, u, Nat.le_succ rest, behind, builds.target forced⟩
      · obtain ⟨rest, rfl, behind⟩ := exists_force_of_target found forced
        exact .inr ⟨rest, u, Nat.le_of_succ_le le, behind, builds⟩
    | @inner wid w =>
      have built : scope.Builds limit s (.wrapper wid .readonly w) := by
        rcases ih with builds | ⟨budget, u, _, forced, builds⟩
        · exact builds
        · obtain rfl := eq_of_force_wrapper forced
          exact builds
      exact .inl (built.child List.mem_cons_self)

/-- A schema that forwards forever is compiled unless it comes to too many lazy schemas in a row. -/
theorem compilable_iff (h : scope.Endless s) :
    scope.Compilable limit s ↔
      ∀ id, scope.ForwardsTo s (.lazy id) → ¬ scope.LazyRow limit (.lazy id) := by
  constructor
  · intro compilable id chain row
    rcases builds_or_force compilable chain with builds | ⟨budget, u, le, forced, _⟩
    · obtain ⟨u, forced⟩ := compilable _ builds
      rw [row.outcome_force] at forced
      cases forced
    · rw [(row.anti le).outcome_force] at forced
      cases forced
  · intro short t builds
    have chain : scope.ForwardsTo s t := h.forwardsTo_of_builds builds
    obtain ⟨u, next⟩ := h t chain
    cases next with
    | @target id u _ => exact (h.of_forwardsTo chain).exists_force (short id chain)
    | inner => trivial

end Endless

mutual

/-- The one reason why a schema that forwards forever is not compiled. -/
theorem Compiles.eq_endlessLazy {d : Draft} {s : Schema} {opened : List NodeId}
    {x : Except Failure (Plan × Draft)} {failure : Failure} :
    scope.Compiles limit d s opened x → scope.Endless s → x = .error failure →
      failure = .endlessLazy limit
  | .leaf, h, _ | .object _, h, _ => by cases h.isForwarding
  | .composite _ (x := .error _) parts, h, fails => by
    obtain rfl := Except.error.inj fails
    exact CompilesAll.eq_endlessLazy parts
      (fun c hc => h.of_forwardsTo (.single (h.forwards_child hc))) rfl
  | .astray _ notForced, h, fails => by
    obtain rfl := Except.error.inj fails
    rcases h.force_cases limit limit with ⟨t, forced⟩ | gaveUp
    · cases forced.symm.trans notForced
    · exact Except.error.inj (notForced.symm.trans gaveUp)
  | .target (x := .error _) _ forced inside, h, fails => by
    obtain rfl := Except.error.inj fails
    exact Compiles.eq_endlessLazy inside (h.of_forwardsTo (forwardsTo_of_force forced)) rfl

theorem CompilesAll.eq_endlessLazy {d : Draft} {ss : List Schema} {opened : List NodeId}
    {x : Except Failure (List Plan × Draft)} {failure : Failure} :
    scope.CompilesAll limit d ss opened x → (∀ s ∈ ss, scope.Endless s) → x = .error failure →
      failure = .endlessLazy limit
  | .stop first, each, fails =>
    Compiles.eq_endlessLazy first (each _ List.mem_cons_self) (by rw [Except.error.inj fails])
  | .cons (x := .error _) _ rest, each, fails => by
    obtain rfl := Except.error.inj fails
    exact CompilesAll.eq_endlessLazy rest (fun s hs => each s (List.mem_cons_of_mem _ hs)) rfl

end

theorem Endless.outcome_compile (h : scope.Endless s) {failure : Failure}
    (fails : (scope.compile limit s).outcome = .error failure) : failure = .endlessLazy limit := by
  obtain ⟨opened, x, compiles, same⟩ := scope.compile_compiles limit s
  rw [same] at fails
  cases x with
  | error failure' =>
    obtain rfl := Except.error.inj fails
    exact compiles.eq_endlessLazy h rfl
  | ok made => cases fails

/-- Lazy schemas one after another, without an end. -/
theorem lazyRow_of_forall_lazy
    (all : ∀ t, scope.ForwardsTo s t → ∃ id u, t = .lazy id ∧ scope.target id = .ok u) (n : Nat) :
    scope.LazyRow n s := by
  induction n generalizing s with
  | zero => exact .zero
  | succ n ih =>
    obtain ⟨id, u, rfl, found⟩ := all s .refl
    exact .succ found (ih fun t chain => all t (.head (.target found) chain))

/-! ## What is compiled -/

/-- Whether the definitions of a compiled schema say something. Following bare references ends from
each of them just when forwarding ends from each lazy schema that was built. Forcing notices nothing
but lazy schemas in a row: what forwards forever fails to compile if `limit` lazy schemas follow one
another, as they do if all are lazy, and else all its definitions are bare references. -/
theorem definitions_arrive_iff (scope : Scope) (limit : Nat) (s : Schema) :
    let compiled := (scope.compile limit s).outcome
    (∀ v, compiled = .ok v →
      ((∀ n p, v.definition? n = some p → v.Arrives n) ↔
        ∀ id, scope.Builds limit s (.lazy id) → scope.Arrives (.lazy id))) ∧
    (scope.Endless s →
      ((∃ v, compiled = .ok v) ↔
        ∀ id, scope.ForwardsTo s (.lazy id) → ¬ scope.LazyRow limit (.lazy id)) ∧
      (∀ failure, compiled = .error failure → failure = .endlessLazy limit) ∧
      ∀ v, compiled = .ok v → (∃ n, v.root = .reference n) ∧
        ∀ n p, v.definition? n = some p → ∃ k, p = .reference k) ∧
    ((∀ t, scope.ForwardsTo s t → ∃ id u, t = .lazy id ∧ scope.target id = .ok u) →
      compiled = .error (.endlessLazy limit)) := by
  intro compiled
  refine ⟨fun v compiles => ?_, fun endless => ⟨?_, ?_, fun v compiles => ?_⟩, fun all => ?_⟩
  · obtain ⟨d, hv, finished⟩ := compile_finished compiles
    constructor
    · intro arrive id builds
      obtain ⟨n, hn⟩ := Draft.exists_numbers (finished.mem_reached_iff.mpr builds)
      obtain ⟨_, p, _, defined, _⟩ := finished.definition hn
      rw [← hv] at defined
      exact (finished.arrives_iff hv hn).mp (arrive n p defined)
    · intro arrive n p found
      obtain ⟨id, _, hn, builds, _⟩ := finished.exists_numbers_of_definition hv found
      exact (finished.arrives_iff hv hn).mpr (arrive id builds)
  · exact compile_isOk_iff.trans endless.compilable_iff
  · exact fun failure fails => endless.outcome_compile fails
  · obtain ⟨d, hv, finished⟩ := compile_finished compiles
    -- A plan of its own would be the plan of a schema at which forwarding ends.
    have bare {t : Schema} {p : Plan} (chain : scope.ForwardsTo s t)
        (plans : scope.Plans limit d.Numbers t p) : ∃ k, p = .reference k := by
      by_contra solid
      exact (endless.of_forwardsTo chain).not_arrives (plans.arrives fun k hk => solid ⟨k, hk⟩)
    refine ⟨bare .refl finished.plans, fun n p found => ?_⟩
    obtain ⟨id, t, _, builds, forced, plans⟩ := finished.exists_numbers_of_definition hv found
    exact bare ((endless.forwardsTo_of_builds builds).trans (forwardsTo_of_force forced)) plans
  · obtain ⟨id, u, rfl, found⟩ := all s .refl
    exact outcome_compile_of_force (lazyRow_of_forall_lazy all limit).outcome_force

/-- A read-only schema around the lazy schema that leads to it. -/
def readonlyLoop : Scope :=
  { defs := [("R", .schema (.wrapper 1 .readonly (.lazy 0)))], getters := [(0, .named "R")] }

/-- A loop through a read-only schema is compiled, and its definition refers to itself. -/
theorem readonlyLoop_not_rejected :
    ∃ v, (readonlyLoop.compile 64 (.lazy 0)).outcome = .ok v ∧
      v.definition? 0 = some (.reference 0) ∧ ¬ v.Arrives 0 ∧ readonlyLoop.Endless (.lazy 0) := by
  have self : Validator.definition? ⟨.reference 0, [(0, .reference 0)]⟩ 0 = some (.reference 0) :=
    rfl
  refine ⟨⟨.reference 0, [(0, .reference 0)]⟩, by cbv, self, Validator.not_arrives_of_self self, ?_⟩
  intro t chain
  have onLoop : t = .lazy 0 ∨ t = .wrapper 1 .readonly (.lazy 0) := by
    induction chain with
    | refl => exact .inl rfl
    | tail _ next ih =>
      rcases ih with rfl | rfl
      · exact .inr (next.det (.target rfl))
      · exact .inl (next.det .inner)
  rcases onLoop with rfl | rfl
  · exact ⟨_, .target rfl⟩
  · exact ⟨_, .inner⟩

end Scope

end Schemata
