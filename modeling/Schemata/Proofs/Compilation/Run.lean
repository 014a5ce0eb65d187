import Schemata.Proofs.Compilation.Calls
import Schemata.Proofs.Validation.Plans

/-!
# What compiling builds

Compiling a schema builds its children and, for a lazy schema, the first schema behind it that is
not lazy. Every lazy schema on the way gets one number, and once all is built every number has one
definition. All this is read off the calls of a compilation.
-/

namespace Schemata

namespace Scope

section

variable (scope : Scope) (limit : Nat)

/-- One step of compiling. -/
inductive BuildsNext : Schema → Schema → Prop
  | child {s c : Schema} : c ∈ s.children → BuildsNext s c
  | target {id : NodeId} {t : Schema} : (scope.force limit limit (.lazy id)).outcome = .ok t →
    BuildsNext (.lazy id) t

/-- All schemas that compiling a schema builds, itself included. -/
abbrev Builds : Schema → Schema → Prop :=
  Relation.ReflTransGen (scope.BuildsNext limit)

end

variable {scope : Scope} {limit : Nat}

theorem Builds.child {root s c : Schema} (h : scope.Builds limit root s) (hc : c ∈ s.children) :
    scope.Builds limit root c :=
  h.tail (.child hc)

theorem Builds.target {root t : Schema} {id : NodeId} (h : scope.Builds limit root (.lazy id))
    (ht : (scope.force limit limit (.lazy id)).outcome = .ok t) : scope.Builds limit root t :=
  h.tail (.target ht)

/-! ## Plans of composite schemas -/

section

variable {number : NodeId → Nat → Prop}

/-- The plan that belongs to a composite schema is put together from plans of the children. -/
theorem Plans.exists_children {s : Schema} {p : Plan} (h : scope.Plans limit number s p)
    (hs : s.isComposite = true) :
    ∃ ps, scope.PlansAll limit number s.children ps ∧ p = s.planWith ps := by
  cases h with
  | leaf | object | lazy => cases hs
  | array hp => exact ⟨_, .cons hp .nil, rfl⟩
  | record hp hq => exact ⟨_, .cons hp (.cons hq .nil), rfl⟩
  | tuple hps => exact ⟨_, hps, rfl⟩
  | union hps => exact ⟨_, hps, rfl⟩
  | wrapper hp => exact ⟨_, .cons hp .nil, rfl⟩
  | pipe hp hq => exact ⟨_, .cons hp (.cons hq .nil), rfl⟩

/-- Plans of the children make a plan of a composite schema. -/
theorem PlansAll.planWith {s : Schema} {ps : List Plan}
    (h : scope.PlansAll limit number s.children ps) (hs : s.isComposite = true) :
    scope.Plans limit number s (s.planWith ps) := by
  cases s with
  | leaf | object | lazy => cases hs
  | tuple => exact .tuple h
  | union => exact .union h
  | array =>
    obtain _ | ⟨hp, _ | _⟩ := h
    exact .array hp
  | record =>
    obtain _ | ⟨hp, _ | ⟨hq, _ | _⟩⟩ := h
    exact .record hp hq
  | wrapper =>
    obtain _ | ⟨hp, _ | _⟩ := h
    exact .wrapper hp
  | pipe =>
    obtain _ | ⟨hp, _ | ⟨hq, _ | _⟩⟩ := h
    exact .pipe hp hq

theorem PlansAll.exists_plan {ss : List Schema} {ps : List Plan}
    (h : scope.PlansAll limit number ss ps) {s : Schema} (hs : s ∈ ss) :
    ∃ p, scope.Plans limit number s p := by
  induction ss generalizing ps with
  | nil => cases hs
  | cons t rest ih =>
    obtain _ | ⟨first, others⟩ := h
    rcases List.mem_cons.mp hs with rfl | hs
    · exact ⟨_, first⟩
    · exact ih others hs

theorem PlansShape.exists_plan {shape : List (String × Schema)} {fields : List (Field Plan)}
    (h : scope.PlansShape limit number shape fields) {property : String × Schema}
    (hp : property ∈ shape) :
    ∃ p absence, scope.Plans limit number property.2 p ∧
      (scope.absence limit property.2).outcome = .ok absence := by
  induction shape generalizing fields with
  | nil => cases hp
  | cons first rest ih =>
    obtain _ | ⟨hs, habsence, others⟩ := h
    rcases List.mem_cons.mp hp with rfl | hp
    · exact ⟨_, _, hs, habsence⟩
    · exact ih others hp

/-- With a schema, its children have plans. -/
theorem Plans.exists_child {s c : Schema} {p : Plan} (h : scope.Plans limit number s p)
    (hc : c ∈ s.children) : ∃ q, scope.Plans limit number c q := by
  cases composite : s.isComposite with
  | true =>
    obtain ⟨_, hps, _⟩ := h.exists_children composite
    exact hps.exists_plan hc
  | false =>
    cases s with
    | leaf | lazy => cases hc
    | object id shape =>
      obtain ⟨property, hproperty, rfl⟩ := List.mem_map.mp hc
      cases h with
      | object hfields =>
        obtain ⟨q, _, hq, _⟩ := hfields.exists_plan hproperty
        exact ⟨q, hq⟩
    | array | record | tuple | union | wrapper | pipe => cases composite

end

end Scope

/-! ## Tidy drafts -/

namespace Draft

variable {d d' : Draft} {id : NodeId} {n : Nat} {opened : List Nat}

/-- Every lazy schema was reached once, and every number has one definition or is among `opened`,
the numbers of the definitions in progress. -/
structure Tidy (d : Draft) (opened : List Nat) : Prop where
  once : d.reached.Nodup
  defined : (opened ++ d.definitions.map (·.1)).Perm (List.range d.reached.length)

theorem Numbers.mem_reached (h : d.Numbers id n) : id ∈ d.reached := by
  obtain ⟨hlt, hn, _⟩ := List.findIdx?_eq_some_iff_getElem.mp h
  exact beq_iff_eq.mp hn ▸ List.getElem_mem hlt

theorem Numbers.lt (h : d.Numbers id n) : n < d.reached.length :=
  (List.findIdx?_eq_some_iff_getElem.mp h).1

theorem exists_numbers (h : id ∈ d.reached) : ∃ n, d.Numbers id n := by
  cases hn : d.number? id with
  | none => exact absurd h (not_mem_reached hn)
  | some n => exact ⟨n, hn⟩

/-- The number of a lazy schema is its position. -/
theorem Numbers.idxOf (h : d.Numbers id n) : d.reached.idxOf id = n := by
  unfold Numbers number? at h
  rw [List.idxOf, List.findIdx_eq_getD_findIdx?, h]
  rfl

theorem Tidy.empty : Tidy .empty [] where
  once := List.nodup_nil
  defined := .nil

theorem Tidy.reach (h : d.Tidy opened) (new : d.number? id = none) :
    (d.reach id).Tidy (d.reached.length :: opened) where
  once := nodup_reach h.once new
  defined := by
    have grown : (d.reach id).reached.length = d.reached.length + 1 := List.length_append
    rw [grown, List.range_succ]
    exact (h.defined.cons d.reached.length).trans (List.perm_append_singleton _ _).symm

theorem Tidy.complete {p : Plan} (h : d.Tidy (n :: opened)) : (d.complete n p).Tidy opened where
  once := h.once
  defined := by
    have moved : (opened ++ (d.definitions ++ [(n, p)]).map (·.1)).Perm
        (n :: (opened ++ d.definitions.map (·.1))) := by
      rw [List.map_append, ← List.append_assoc]
      exact List.perm_append_singleton _ _
    exact moved.trans h.defined

/-- No number has two definitions. -/
theorem Tidy.nodup_numbers (h : d.Tidy []) : (d.definitions.map (·.1)).Nodup :=
  h.defined.nodup_iff.mpr List.nodup_range

theorem Tidy.mem_numbers_iff (h : d.Tidy []) :
    n ∈ d.definitions.map (·.1) ↔ n < d.reached.length :=
  h.defined.mem_iff.trans List.mem_range

end Draft

namespace Scope

open Compilation

variable {scope : Scope} {limit : Nat}

/-! ## What the calls build

By recursion on the calls. Where success matters, the outcome stays a variable with an equation, since
the calls inside have other outcomes. -/

mutual

/-- A lazy schema that is translated is built. -/
theorem Compiles.builds {d : Draft} {s : Schema} {opened : List NodeId}
    {x : Except Failure (Plan × Draft)} :
    scope.Compiles limit d s opened x → ∀ id ∈ opened, scope.Builds limit s (.lazy id)
  | .leaf | .reference _ | .astray _ _ => fun _ hid => absurd hid List.not_mem_nil
  | .object h => fun id hid =>
    have ⟨_, hc, builds⟩ := CompilesShape.builds h id hid
    .head (.child hc) builds
  | .composite _ h => fun id hid =>
    have ⟨_, hc, builds⟩ := CompilesAll.builds h id hid
    .head (.child hc) builds
  | .target _ ht h => fun id hid => by
    rcases List.mem_cons.mp hid with rfl | hid
    · exact .refl
    · exact .head (.target ht) (Compiles.builds h id hid)

theorem CompilesAll.builds {d : Draft} {ss : List Schema} {opened : List NodeId}
    {x : Except Failure (List Plan × Draft)} :
    scope.CompilesAll limit d ss opened x →
      ∀ id ∈ opened, ∃ s ∈ ss, scope.Builds limit s (.lazy id)
  | .nil => fun _ hid => absurd hid List.not_mem_nil
  | .stop h => fun id hid => ⟨_, List.mem_cons_self, Compiles.builds h id hid⟩
  | .cons h rest => fun id hid => by
    rcases List.mem_append.mp hid with hid | hid
    · exact ⟨_, List.mem_cons_self, Compiles.builds h id hid⟩
    · obtain ⟨s, hs, builds⟩ := CompilesAll.builds rest id hid
      exact ⟨s, List.mem_cons_of_mem _ hs, builds⟩

theorem CompilesShape.builds {d : Draft} {shape : List (String × Schema)} {opened : List NodeId}
    {x : Except Failure (List (Field Plan) × Draft)} :
    scope.CompilesShape limit d shape opened x →
      ∀ id ∈ opened, ∃ s ∈ shape.map (·.2), scope.Builds limit s (.lazy id)
  | .nil => fun _ hid => absurd hid List.not_mem_nil
  | .stop h | .undecided h _ => fun id hid => ⟨_, List.mem_cons_self, Compiles.builds h id hid⟩
  | .cons h _ rest => fun id hid => by
    rcases List.mem_append.mp hid with hid | hid
    · exact ⟨_, List.mem_cons_self, Compiles.builds h id hid⟩
    · obtain ⟨s, hs, builds⟩ := CompilesShape.builds rest id hid
      exact ⟨s, List.mem_cons_of_mem _ hs, builds⟩

end

mutual

/-- A compilation that succeeds completes the definitions that it opens, and no others. -/
theorem Compiles.tidy {d d' : Draft} {s : Schema} {opened : List NodeId} {p : Plan}
    {x : Except Failure (Plan × Draft)} {numbers : List Nat} :
    scope.Compiles limit d s opened x → x = .ok (p, d') → d.Tidy numbers → d'.Tidy numbers
  | .leaf, hx, tidy => by
    obtain ⟨_, rfl⟩ := eq_of_planOfLeaf hx
    exact tidy
  | .object h, hx, tidy => by
    obtain ⟨_, hx, _⟩ := exists_of_mapResult hx
    exact CompilesShape.tidy h hx tidy
  | .composite _ h, hx, tidy => by
    obtain ⟨_, hx, _⟩ := exists_of_mapResult hx
    exact CompilesAll.tidy h hx tidy
  | .reference _, hx, tidy => by
    cases hx
    exact tidy
  | .astray _ _, hx, _ => by cases hx
  | .target new _ h, hx, tidy => by
    obtain ⟨⟨q, d₁⟩, hq, made⟩ := exists_of_map hx
    cases made
    exact (Compiles.tidy h hq (tidy.reach new)).complete

theorem CompilesAll.tidy {d d' : Draft} {ss : List Schema} {opened : List NodeId} {ps : List Plan}
    {x : Except Failure (List Plan × Draft)} {numbers : List Nat} :
    scope.CompilesAll limit d ss opened x → x = .ok (ps, d') → d.Tidy numbers → d'.Tidy numbers
  | .nil, hx, tidy => by
    cases hx
    exact tidy
  | .stop _, hx, _ => by cases hx
  | .cons h rest, hx, tidy => by
    obtain ⟨_, hx, _⟩ := exists_of_mapResult hx
    exact CompilesAll.tidy rest hx (Compiles.tidy h rfl tidy)

theorem CompilesShape.tidy {d d' : Draft} {shape : List (String × Schema)} {opened : List NodeId}
    {fields : List (Field Plan)} {x : Except Failure (List (Field Plan) × Draft)}
    {numbers : List Nat} :
    scope.CompilesShape limit d shape opened x → x = .ok (fields, d') → d.Tidy numbers →
      d'.Tidy numbers
  | .nil, hx, tidy => by
    cases hx
    exact tidy
  | .stop _, hx, _ => by cases hx
  | .undecided _ _, hx, _ => by cases hx
  | .cons h _ rest, hx, tidy => by
    obtain ⟨_, hx, _⟩ := exists_of_mapResult hx
    exact CompilesShape.tidy rest hx (Compiles.tidy h rfl tidy)

end

/-- Numbers stay while schemas are compiled. -/
theorem Translates.numbers {α : Type} {d d' : Draft} {opened : List NodeId} {a : α}
    {x : Except Failure (α × Draft)} (h : scope.Translates d opened x) (hx : x = .ok (a, d'))
    (id : NodeId) (n : Nat) (hn : d.Numbers id n) : d'.Numbers id n :=
  hn.of_append (h.reached hx)

mutual

/-- Compiling a schema gives a plan that belongs to it and leaves a sound draft behind. -/
theorem Compiles.plans {d d' : Draft} {s : Schema} {opened : List NodeId} {p : Plan}
    {x : Except Failure (Plan × Draft)} :
    scope.Compiles limit d s opened x → x = .ok (p, d') → d.Sound scope limit →
      d'.Sound scope limit ∧ scope.Plans limit d'.Numbers s p
  | .leaf, hx, sound => by
    obtain ⟨hp, rfl⟩ := eq_of_planOfLeaf hx
    exact ⟨sound, .leaf hp⟩
  | .object h, hx, sound => by
    obtain ⟨fields, hfields, rfl⟩ := exists_of_mapResult hx
    obtain ⟨sound', belongs⟩ := CompilesShape.plans h hfields sound
    exact ⟨sound', .object belongs⟩
  | .composite hs h, hx, sound => by
    obtain ⟨ps, hps, rfl⟩ := exists_of_mapResult hx
    obtain ⟨sound', belongs⟩ := CompilesAll.plans h hps sound
    exact ⟨sound', belongs.planWith hs⟩
  | .reference hn, hx, sound => by
    cases hx
    exact ⟨sound, .lazy hn⟩
  | .astray _ _, hx, _ => by cases hx
  | .target new ht h, hx, sound => by
    obtain ⟨⟨q, d₁⟩, hq, made⟩ := exists_of_map hx
    cases made
    obtain ⟨sound', belongs⟩ := Compiles.plans h hq (sound.reach _)
    have hn := h.translates.numbers hq _ _ (Draft.numbers_reach new)
    exact ⟨sound'.complete hn ht belongs, .lazy hn⟩

theorem CompilesAll.plans {d d' : Draft} {ss : List Schema} {opened : List NodeId} {ps : List Plan}
    {x : Except Failure (List Plan × Draft)} :
    scope.CompilesAll limit d ss opened x → x = .ok (ps, d') → d.Sound scope limit →
      d'.Sound scope limit ∧ scope.PlansAll limit d'.Numbers ss ps
  | .nil, hx, sound => by
    cases hx
    exact ⟨sound, .nil⟩
  | .stop _, hx, _ => by cases hx
  | .cons h rest, hx, sound => by
    obtain ⟨ps, hps, rfl⟩ := exists_of_mapResult hx
    obtain ⟨sound₁, first⟩ := Compiles.plans h rfl sound
    obtain ⟨sound₂, others⟩ := CompilesAll.plans rest hps sound₁
    exact ⟨sound₂, .cons (first.mono (rest.translates.numbers hps)) others⟩

theorem CompilesShape.plans {d d' : Draft} {shape : List (String × Schema)} {opened : List NodeId}
    {fields : List (Field Plan)} {x : Except Failure (List (Field Plan) × Draft)} :
    scope.CompilesShape limit d shape opened x → x = .ok (fields, d') → d.Sound scope limit →
      d'.Sound scope limit ∧ scope.PlansShape limit d'.Numbers shape fields
  | .nil, hx, sound => by
    cases hx
    exact ⟨sound, .nil⟩
  | .stop _, hx, _ => by cases hx
  | .undecided _ _, hx, _ => by cases hx
  | .cons h habsence rest, hx, sound => by
    obtain ⟨fields, hfields, rfl⟩ := exists_of_mapResult hx
    obtain ⟨sound₁, first⟩ := Compiles.plans h rfl sound
    obtain ⟨sound₂, others⟩ := CompilesShape.plans rest hfields sound₁
    exact ⟨sound₂, .cons (first.mono (rest.translates.numbers hfields)) habsence others⟩

end

/-! ## Compilations that have come to their end -/

/-- A draft in which compiling a schema has come to its end with the plan `root`. -/
structure Finished (scope : Scope) (limit : Nat) (s : Schema) (d : Draft) (root : Plan) : Prop where
  sound : d.Sound scope limit
  tidy : d.Tidy []
  built : ∀ id ∈ d.reached, scope.Builds limit s (.lazy id)
  plans : scope.Plans limit d.Numbers s root

variable {s t : Schema} {d : Draft} {root : Plan}

theorem compile_finished {v : Validator} (h : (scope.compile limit s).outcome = .ok v) :
    ∃ d, v.definitions = d.definitions ∧ scope.Finished limit s d v.root := by
  obtain ⟨opened, d, compiles, hdefinitions⟩ := compile_eq_ok_iff.mp h
  obtain ⟨sound, plans⟩ := compiles.plans rfl Draft.Sound.empty
  have tidy := compiles.tidy rfl Draft.Tidy.empty
  -- From the empty draft, all that is reached in the end is translated.
  have reached : d.reached = opened := compiles.translates.reached rfl
  exact ⟨d, hdefinitions, sound, tidy, reached ▸ compiles.builds, plans⟩

namespace Finished

/-- Every lazy schema with a number is defined by a plan of the schema behind it. -/
theorem definition (h : scope.Finished limit s d root) {id : NodeId} {n : Nat}
    (hn : d.Numbers id n) :
    ∃ t p, (scope.force limit limit (.lazy id)).outcome = .ok t ∧ d.definitions.lookup n = some p ∧
      scope.Plans limit d.Numbers t p := by
  have defined : n ∈ d.definitions.map (·.1) := h.tidy.mem_numbers_iff.mpr hn.lt
  cases found : d.definitions.lookup n with
  | none =>
    obtain ⟨entry, hmem, rfl⟩ := List.mem_map.mp defined
    exact absurd (List.lookup_eq_none_iff.mp found entry hmem) (by simp)
  | some p =>
    obtain ⟨id', t, hn', ht, hp⟩ := h.sound n p (mem_of_lookup found)
    obtain rfl := hn.det hn'
    exact ⟨t, p, ht, rfl, hp⟩

/-- Whatever is built from a schema with a plan has a plan. -/
theorem exists_plan_of_builds (h : scope.Finished limit s d root) {t u : Schema} {p : Plan}
    (hp : scope.Plans limit d.Numbers t p) (builds : scope.Builds limit t u) :
    ∃ q, scope.Plans limit d.Numbers u q := by
  induction builds with
  | refl => exact ⟨p, hp⟩
  | tail _ next ih =>
    obtain ⟨p, hp⟩ := ih
    cases next with
    | child hc => exact hp.exists_child hc
    | @target id t ht =>
      cases hp with
      | lazy hn =>
        obtain ⟨t', q, ht', _, hq⟩ := h.definition hn
        obtain rfl := Except.ok.inj (ht.symm.trans ht')
        exact ⟨q, hq⟩

/-- Whatever is built has a plan. -/
theorem exists_plan (h : scope.Finished limit s d root) (builds : scope.Builds limit s t) :
    ∃ p, scope.Plans limit d.Numbers t p :=
  h.exists_plan_of_builds h.plans builds

theorem mem_reached_iff (h : scope.Finished limit s d root) {id : NodeId} :
    id ∈ d.reached ↔ scope.Builds limit s (.lazy id) := by
  refine ⟨h.built id, fun builds => ?_⟩
  obtain ⟨p, hp⟩ := h.exists_plan builds
  cases hp with
  | lazy hn => exact hn.mem_reached

end Finished

end Scope

end Schemata
