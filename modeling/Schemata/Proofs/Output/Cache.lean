import Schemata.Proofs.Output.Yields

/-!
# Complete output shapes

What is remembered of output types between computations, and while one is running. Every shape that is
remembered is the one for its object. It may refer to shapes by name that are still being built. If
the computation fails, those are never complete, but then their objects have no output types at all.
-/

namespace Schemata

namespace OutputCache

variable {cache cache' cache'' : OutputCache}

/-- The output shape that was built for the shape with a number. -/
abbrev Holds (cache : OutputCache) (k : Nat) (t : StaticType) : Prop :=
  cache.lookup (.derived k) = some t

/-- Everything that is remembered stays. -/
def Le (cache cache' : OutputCache) : Prop :=
  ∀ sid t, cache.lookup sid = some t → cache'.lookup sid = some t

theorem Le.refl (cache : OutputCache) : cache.Le cache :=
  fun _ _ h => h

theorem Le.trans (h : cache.Le cache') (h' : cache'.Le cache'') : cache.Le cache'' :=
  fun sid t ht => h' sid t (h sid t ht)

/-- What is not remembered in the end was never remembered. -/
theorem Le.missing (h : cache.Le cache') {sid : ShapeId} (hsid : cache'.lookup sid = none) :
    cache.lookup sid = none := by
  cases found : cache.lookup sid with
  | none => rfl
  | some t =>
    rw [h sid t found] at hsid
    cases hsid

theorem Le.isSome (h : cache.Le cache') {sid : ShapeId} (hsid : (cache.lookup sid).isSome = true) :
    (cache'.lookup sid).isSome = true := by
  obtain ⟨t, ht⟩ := Option.isSome_iff_exists.mp hsid
  rw [h sid t ht]
  rfl

theorem Le.cons {sid : ShapeId} (h : cache.lookup sid = none) (t : StaticType) :
    cache.Le ((sid, t) :: cache) := by
  intro sid' t' ht
  have hne : sid' ≠ sid := by
    rintro rfl
    rw [h] at ht
    cases ht
  rw [List.lookup_cons, beq_false_of_ne hne]
  exact ht

/-- Every remembered shape has the name of its number. -/
def Named (cache : OutputCache) : Prop :=
  ∀ sid t, (sid, t) ∈ cache → ∃ k fields optional,
    sid = .derived k ∧ t = .shape (.output sid) (outputName k) fields optional

/-- The name of an output shape leads to it. -/
theorem Named.named?_outputName (h : cache.Named) (k : Nat) :
    cache.named? (outputName k) = cache.lookup (.derived k) := by
  unfold named?
  induction cache with
  | nil => rfl
  | cons entry rest ih =>
    obtain ⟨sid, t⟩ := entry
    obtain ⟨j, fields, optional, rfl, rfl⟩ := h sid t List.mem_cons_self
    have tail := ih fun sid t ht => h sid t (List.mem_cons_of_mem _ ht)
    by_cases hjk : j = k
    · subst hjk
      simp [StaticType.isShape]
    · have hname : outputName j ≠ outputName k := fun heq => hjk (outputName_inj.mp heq)
      have hne : (ShapeId.derived k == ShapeId.derived j) = false := by
        simp [Ne.symm hjk]
      simp only [List.find?_cons, StaticType.isShape, List.lookup_cons, hne, beq_false_of_ne hname]
      exact tail

end OutputCache

namespace Scope

variable (scope : Scope) (limit : Nat) (owners : Owners)

/-- A shape whose object has no output type. -/
def Hopeless (k : Nat) : Prop :=
  ∃ shape, owners k = some shape ∧ ∀ id, ¬ scope.Expressible (.object id shape)

/-- The shapes that may be referred to by name. -/
def Known (building : List ShapeId) (cache : OutputCache) (k : Nat) : Prop :=
  .derived k ∈ building ∨ (∃ t, cache.Holds k t) ∨ scope.Hopeless owners k

/-- A type is the output type of a schema, as far as it is built. -/
abbrev YieldsIn (building : List ShapeId) (cache : OutputCache) (s : Schema) (t : StaticType) : Prop :=
  scope.Yields owners cache.Holds (scope.Known owners building cache) s t

/-- What is remembered while some shapes are being built. -/
structure Cached (building : List ShapeId) (cache : OutputCache) : Prop where
  named : cache.Named
  shapes {k : Nat} {t : StaticType} : cache.Holds k t → ∃ shape, owners k = some shape ∧
    scope.OutputShape limit owners cache.Holds (scope.Known owners building cache) k shape t
  missing {sid : ShapeId} : sid ∈ building → cache.lookup sid = none

variable {scope limit owners} {building : List ShapeId} {cache cache' : OutputCache}

theorem Known.mono {k : Nat} (h : scope.Known owners building cache k) (hle : cache.Le cache') :
    scope.Known owners building cache' k := by
  rcases h with h | ⟨t, ht⟩ | h
  · exact .inl h
  · exact .inr (.inl ⟨t, hle _ _ ht⟩)
  · exact .inr (.inr h)

theorem Known.widen {owners' : Owners} {k : Nat} (h : scope.Known owners building cache k)
    (howners : ∀ k shape, owners k = some shape → owners' k = some shape) :
    scope.Known owners' building cache k :=
  h.imp_right fun h => h.imp_right fun ⟨shape, hk, cannot⟩ => ⟨shape, howners k shape hk, cannot⟩

theorem YieldsIn.mono {s : Schema} {t : StaticType} (h : scope.YieldsIn owners building cache s t)
    (hle : cache.Le cache') : scope.YieldsIn owners building cache' s t :=
  Yields.mono (fun _ _ h => h) (fun _ _ => hle _ _) (fun _ h => h.mono hle) h

namespace Cached

theorem empty : scope.Cached limit owners [] [] where
  named _ _ h := absurd h List.not_mem_nil
  shapes h := nomatch h
  missing h := absurd h List.not_mem_nil

theorem shaped (h : scope.Cached limit owners building cache) :
    scope.Shaped limit owners cache.Holds (scope.Known owners building cache) where
  shapes := h.shapes
  unique ht hu := Option.some.inj (ht.symm.trans hu)

/-- When nothing is being built, references can be followed. -/
theorem closed (h : scope.Cached limit owners [] cache) :
    scope.Closed limit owners cache.Holds (scope.Known owners [] cache) cache.named? where
  toShaped := h.shaped
  named {id k shape} hknown hk expressible := by
    rcases hknown with hmem | ⟨t, ht⟩ | hopeless
    · exact absurd hmem List.not_mem_nil
    · exact ⟨t, ht, (h.named.named?_outputName k).trans ht⟩
    · obtain ⟨shape', hk', cannot⟩ := hopeless
      obtain rfl := Option.some.inj (hk.symm.trans hk')
      exact absurd expressible (cannot id)

theorem widen {owners' : Owners} (h : scope.Cached limit owners building cache)
    (howners : ∀ k shape, owners k = some shape → owners' k = some shape) :
    scope.Cached limit owners' building cache where
  named := h.named
  shapes {k t} ht := by
    obtain ⟨shape, hk, hshape⟩ := h.shapes ht
    refine ⟨shape, howners k shape hk, hshape.mono howners (fun _ _ h => h) ?_⟩
    exact fun _ h => h.widen howners
  missing := h.missing

/-- One more shape is being built. -/
theorem enter {sid : ShapeId} (h : scope.Cached limit owners building cache)
    (hsid : cache.lookup sid = none) : scope.Cached limit owners (sid :: building) cache where
  named := h.named
  shapes {k t} ht := by
    obtain ⟨shape, hk, hshape⟩ := h.shapes ht
    refine ⟨shape, hk, hshape.mono (fun _ _ h => h) (fun _ _ h => h) ?_⟩
    exact fun _ => .imp_left (List.mem_cons_of_mem _)
  missing hmem := by
    rcases List.mem_cons.mp hmem with rfl | hmem
    · exact hsid
    · exact h.missing hmem

/-- A shape that cannot be built is given up. -/
theorem giveUp {k : Nat} (h : scope.Cached limit owners (.derived k :: building) cache)
    (hopeless : scope.Hopeless owners k) : scope.Cached limit owners building cache where
  named := h.named
  shapes {j t} ht := by
    obtain ⟨shape, hj, hshape⟩ := h.shapes ht
    refine ⟨shape, hj, hshape.mono (fun _ _ h => h) (fun _ _ h => h) ?_⟩
    rintro i (hi | hi)
    · rcases List.mem_cons.mp hi with heq | hi
      · cases heq
        exact .inr (.inr hopeless)
      · exact .inl hi
    · exact .inr hi
  missing hmem := h.missing (List.mem_cons_of_mem _ hmem)

/-- A shape is complete. -/
theorem complete {k : Nat} {shape : List (String × Schema)} {t : StaticType}
    (h : scope.Cached limit owners (.derived k :: building) cache) (unused : .derived k ∉ building)
    (hk : owners k = some shape)
    (hshape : scope.OutputShape limit owners cache.Holds
      (scope.Known owners (.derived k :: building) cache) k shape t) :
    scope.Cached limit owners building ((.derived k, t) :: cache) := by
  have hle := OutputCache.Le.cons (h.missing List.mem_cons_self) t
  have self : OutputCache.Holds ((.derived k, t) :: cache) k t := by
    simp [OutputCache.Holds]
  -- What was known because it was being built is known now because it is complete.
  have known (j : Nat) (hj : scope.Known owners (.derived k :: building) cache j) :
      scope.Known owners building ((.derived k, t) :: cache) j := by
    rcases hj.mono hle with hj | hj
    · rcases List.mem_cons.mp hj with heq | hj
      · cases heq
        exact .inr (.inl ⟨t, self⟩)
      · exact .inl hj
    · exact .inr hj
  refine ⟨?_, ?_, ?_⟩
  · intro sid u hu
    rcases List.mem_cons.mp hu with heq | hu
    · cases heq
      cases hshape
      exact ⟨k, _, _, rfl, rfl⟩
    · exact h.named sid u hu
  · intro j u hu
    by_cases hjk : j = k
    · subst hjk
      obtain rfl := Option.some.inj (self.symm.trans hu)
      exact ⟨shape, hk, hshape.mono (fun _ _ h => h) (fun _ _ => hle _ _) known⟩
    · have hne : (ShapeId.derived j == ShapeId.derived k) = false := by simp [hjk]
      rw [OutputCache.Holds, List.lookup_cons, hne] at hu
      obtain ⟨shape, hj, hshape⟩ := h.shapes hu
      exact ⟨shape, hj, hshape.mono (fun _ _ h => h) (fun _ _ => hle _ _) known⟩
  · intro sid hmem
    have hne : sid ≠ .derived k := by
      rintro rfl
      exact unused hmem
    rw [List.lookup_cons, beq_false_of_ne hne]
    exact h.missing (List.mem_cons_of_mem _ hmem)

end Cached

/-! ## Computations -/

variable {α β : Type} {result result' : OutputCache → α → Prop} {can can' : Prop}

/-- How the computation of an output type ends. It succeeds with a `result` if it `can`, and in any
case what it remembers is right. -/
inductive Outputs (scope : Scope) (limit : Nat) (owners : Owners) (building : List ShapeId)
    (cache : OutputCache) (can : Prop) (result : OutputCache → α → Prop) :
    Except Failure α × OutputCache → Prop
  | ok {a : α} {cache' : OutputCache} : cache.Le cache' →
    scope.Cached limit owners building cache' → result cache' a →
    Outputs scope limit owners building cache can result (.ok a, cache')
  | error {failure : Failure} {cache' : OutputCache} :
    scope.Cached limit owners building cache' → ¬ can →
    Outputs scope limit owners building cache can result (.error failure, cache')

namespace Outputs

theorem pure {a : α} (start : scope.Cached limit owners building cache) (ha : result cache a) :
    scope.Outputs limit owners building cache can result (.ok a, cache) :=
  .ok (.refl _) start ha

theorem imp {x : Except Failure α × OutputCache}
    (h : scope.Outputs limit owners building cache can result x)
    (hresult : ∀ cache' a, result cache' a → result' cache' a) (hcan : can' → can) :
    scope.Outputs limit owners building cache can' result' x := by
  cases h with
  | ok hle cached ha => exact .ok hle cached (hresult _ _ ha)
  | error cached cannot => exact .error cached fun h => cannot (hcan h)

/-- One computation after another. -/
theorem bind {m : Outputting α} {f : α → Outputting β} {result' : OutputCache → β → Prop}
    (h : scope.Outputs limit owners building cache can result (m.exec cache))
    (next : ∀ cache' a, cache.Le cache' → scope.Cached limit owners building cache' →
      result cache' a → scope.Outputs limit owners building cache' can result' ((f a).exec cache')) :
    scope.Outputs limit owners building cache can result' ((m >>= f).exec cache) := by
  generalize hx : m.exec cache = x at h
  cases h with
  | error cached cannot =>
    rw [Stateful.exec_bind_error hx]
    exact .error cached cannot
  | @ok a cache' hle cached ha =>
    rw [Stateful.exec_bind_ok hx]
    have after := next cache' a hle cached ha
    generalize (f a).exec cache' = y at after ⊢
    cases after with
    | ok hle' cached' hb => exact .ok (hle.trans hle') cached' hb
    | error cached' cannot => exact .error cached' cannot

end Outputs

end Scope

end Schemata
