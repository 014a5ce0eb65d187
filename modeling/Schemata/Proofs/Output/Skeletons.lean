import Schemata.Proofs.Output.Cache
import Schemata.Proofs.Output.Equations
import Schemata.Proofs.Output.Within

/-!
# Skeletons of output types

What an output type is made of does not depend on which shapes are complete, but for the places where
the outputs of objects stand. Its skeleton has a stub in each of these places. A computation of the
output type that succeeds finds the same skeleton whatever is remembered, and puts in the place of a
stub the shape that is complete, or its name while it is being built.
-/

namespace Schemata

/-- What stands in the place of a stub when some shapes are complete. -/
def OutputCache.shown (cache : OutputCache) : StaticType → StaticType
  | .shape (.output id) name _ _ => (cache.lookup id).getD (.reference name)
  | t => t

namespace Shapes

variable {shapes : Shapes} {names : Names} {limit : Nat} {building building' : List ShapeId}
  {start cache cache' : OutputCache}

/-! ## Stubs -/

/-- The output of an object, reduced to its name. -/
def stub (id : ShapeId) (name : String) : StaticType :=
  .shape (.output id) (name ++ "Output") [] []

/-- Every shape is complete, with a stub for its output. -/
def stubs (shapes : Shapes) : OutputCache :=
  shapes.map fun (id, name, _) => (id, stub id name)

theorem lookup_stubs {id : ShapeId} {name : String} {fields : List (String × StaticType)}
    (h : shapes.lookup id = some (name, fields)) : shapes.stubs.lookup id = some (stub id name) := by
  induction shapes with
  | nil => cases h
  | cons first rest ih =>
    obtain ⟨id', name', fields'⟩ := first
    rw [List.lookup_cons] at h
    rw [stubs, List.map_cons, List.lookup_cons]
    by_cases hid : id = id'
    · subst hid
      simp only [beq_self_eq_true, Option.some.injEq, Prod.mk.injEq] at h ⊢
      rw [h.1]
    · rw [beq_false_of_ne hid] at h ⊢
      exact ih h

theorem beq_output (id id' : ShapeId) : (ShapeId.output id == .output id') = (id == id') := by
  rw [Bool.eq_iff_iff]
  simp

theorem equal_stubs (id id' : ShapeId) (name name' : String) :
    StaticType.equal (stub id name) (stub id' name') = .ok (id == id') := by
  rw [stub, stub, StaticType.equal, beq_output]

/-- References to different shapes are different. -/
theorem Closed.beq_names (closed : shapes.Closed names) {id id' : ShapeId} {name name' : String}
    {fields fields' : List (String × StaticType)} (h : shapes.lookup id = some (name, fields))
    (h' : shapes.lookup id' = some (name', fields')) :
    (name ++ "Output" == name' ++ "Output") = (id == id') := by
  rw [Bool.eq_iff_iff, beq_iff_eq, beq_iff_eq, String.append_left_inj]
  constructor
  · rintro rfl
    exact closed.distinct h h'
  · rintro rfl
    exact (Prod.mk.inj (Option.some.inj (h.symm.trans h'))).1

theorem shown_complete {id : ShapeId} {t : StaticType} (h : cache.lookup id = some t)
    (name : String) : cache.shown (stub id name) = t := by
  rw [stub, OutputCache.shown, h]
  rfl

theorem shown_missing {id : ShapeId} (h : cache.lookup id = none) (name : String) :
    cache.shown (stub id name) = .reference (name ++ "Output") := by
  rw [stub, OutputCache.shown, h]
  rfl

/-- The stub of a shape that is complete or being built. -/
inductive Reached (shapes : Shapes) (building : List ShapeId) (cache : OutputCache) :
    StaticType → Prop
  | intro {id : ShapeId} {name : String} {fields : List (String × StaticType)} :
    shapes.lookup id = some (name, fields) → id ∈ building ∨ (cache.lookup id).isSome = true →
    Reached shapes building cache (stub id name)

/-- A type as it is found when some shapes are complete and others are being built, with its
skeleton. -/
structure Shows (shapes : Shapes) (building : List ShapeId) (cache : OutputCache)
    (skeleton t : StaticType) : Prop where
  reached {m : StaticType} : m ∈ skeleton.joints → shapes.Reached building cache m
  shown : t = skeleton.graft cache.shown

/-- What stands in the place of a stub in a shape that was completed after `start`: the shape that is
complete, or its name if it was not complete at the start and was so, or will be, later. -/
inductive Stands (shapes : Shapes) (start : OutputCache) (building : List ShapeId)
    (cache : OutputCache) : StaticType → StaticType → Prop
  | complete {id : ShapeId} {name : String} {fields : List (String × StaticType)} {t : StaticType} :
    shapes.lookup id = some (name, fields) → cache.lookup id = some t →
    Stands shapes start building cache (stub id name) t
  | named {id : ShapeId} {name : String} {fields : List (String × StaticType)} :
    shapes.lookup id = some (name, fields) → start.lookup id = none →
    id ∈ building ∨ (cache.lookup id).isSome = true →
    Stands shapes start building cache (stub id name) (.reference (name ++ "Output"))

/-- A type that has something related in the place of each joint of a skeleton. -/
def Fills (R : StaticType → StaticType → Prop) (skeleton t : StaticType) : Prop :=
  ∃ f, t = skeleton.graft f ∧ ∀ m ∈ skeleton.joints, R m (f m)

/-- Fields of an output shape with the same names and marks. -/
def SameField (R : StaticType → StaticType → Prop) (a b : String × StaticType × Bool) : Prop :=
  a.1 = b.1 ∧ R a.2.1 b.2.1 ∧ a.2.2 = b.2.2

/-- The skeleton of the output type of a type. -/
def HasSkeleton (shapes : Shapes) (names : Names) (limit : Nat) (t skeleton : StaticType) : Prop :=
  (names.outputIn limit 0 (names.derived.length + 1) [] t).exec shapes.stubs
    = (.ok skeleton, shapes.stubs)

/-- The skeletons of the fields of an output shape. -/
def HasFieldSkeletons (shapes : Shapes) (names : Names) (limit : Nat) (id : ShapeId)
    (fields : List (String × StaticType)) (skeletons : List (String × StaticType × Bool)) : Prop :=
  ∃ looked, names.fieldsOf id fields = (looked, none) ∧
    (names.outputFields limit 0 (names.derived.length + 1) [] looked).exec shapes.stubs
      = (.ok skeletons, shapes.stubs)

/-- The output shape of an object that was completed after `start`. -/
inductive Completed (shapes : Shapes) (names : Names) (limit : Nat) (start : OutputCache)
    (building : List ShapeId) (cache : OutputCache) (id : ShapeId) : StaticType → Prop
  | intro {name : String} {fields : List (String × StaticType)}
      {skeletons made : List (String × StaticType × Bool)} :
    shapes.lookup id = some (name, fields) →
    shapes.HasFieldSkeletons names limit id fields skeletons →
    List.Forall₂ (SameField (Fills (shapes.Stands start building cache))) skeletons made →
    Completed shapes names limit start building cache id (Names.shapeOf id name made)

/-- What is remembered after `start` while some shapes are being built. -/
structure Sound (shapes : Shapes) (names : Names) (limit : Nat) (start : OutputCache)
    (building : List ShapeId) (cache : OutputCache) : Prop where
  grown : start.Le cache
  found {id : ShapeId} {t : StaticType} : (id, t) ∈ cache → cache.lookup id = some t
  named {id : ShapeId} {t : StaticType} : cache.lookup id = some t → ∃ name fields made,
    shapes.lookup id = some (name, fields) ∧ t = Names.shapeOf id name made
  missing {id : ShapeId} : id ∈ building → cache.lookup id = none
  completed {id : ShapeId} {t : StaticType} : cache.lookup id = some t →
    start.lookup id = some t ∨ shapes.Completed names limit start building cache id t

/-! ## Growth -/

theorem Reached.mono {m : StaticType} (h : shapes.Reached building cache m) (hle : cache.Le cache') :
    shapes.Reached building cache' m := by
  obtain ⟨hid, later⟩ := h
  exact ⟨hid, later.imp_right hle.isSome⟩

/-- What is being built stays so, and what is complete stays as it is. -/
theorem Shows.mono {skeleton t : StaticType} (h : shapes.Shows building cache skeleton t)
    (hle : cache.Le cache') (missing : ∀ id ∈ building, cache'.lookup id = none) :
    shapes.Shows building cache' skeleton t where
  reached hm := (h.reached hm).mono hle
  shown := by
    rw [h.shown]
    refine StaticType.graft_congr fun m hm => ?_
    obtain ⟨_, building | complete⟩ := h.reached hm
    · have later := missing _ building
      rw [shown_missing (hle.missing later), shown_missing later]
    · obtain ⟨t, ht⟩ := Option.isSome_iff_exists.mp complete
      rw [shown_complete ht, shown_complete (hle _ _ ht)]

theorem Fills.mono {R S : StaticType → StaticType → Prop} {skeleton t : StaticType}
    (h : Fills R skeleton t) (hRS : ∀ m u, R m u → S m u) : Fills S skeleton t := by
  obtain ⟨f, rfl, hf⟩ := h
  exact ⟨f, rfl, fun m hm => hRS _ _ (hf m hm)⟩

theorem SameField.mono {R S : StaticType → StaticType → Prop} {a b : String × StaticType × Bool}
    (h : SameField R a b) (hRS : ∀ m u, R m u → S m u) : SameField S a b :=
  ⟨h.1, hRS _ _ h.2.1, h.2.2⟩

/-- Shapes may be completed, and so may those that were being built. -/
theorem Stands.mono {m t : StaticType} (h : shapes.Stands start building cache m t)
    (hle : cache.Le cache')
    (hbuilding : ∀ id ∈ building, id ∈ building' ∨ (cache'.lookup id).isSome = true) :
    shapes.Stands start building' cache' m t := by
  cases h with
  | complete hid ht => exact .complete hid (hle _ _ ht)
  | named hid absent later =>
    refine .named hid absent ?_
    rcases later with building | complete
    · exact hbuilding _ building
    · exact .inr (hle.isSome complete)

theorem Completed.mono {id : ShapeId} {t : StaticType}
    (h : shapes.Completed names limit start building cache id t) (hle : cache.Le cache')
    (hbuilding : ∀ id ∈ building, id ∈ building' ∨ (cache'.lookup id).isSome = true) :
    shapes.Completed names limit start building' cache' id t := by
  obtain ⟨hid, skeletons, made⟩ := h
  exact ⟨hid, skeletons, made.imp fun _ _ h => h.mono fun _ _ h => h.mono fun _ _ h =>
    h.mono hle hbuilding⟩

/-- What is shown now stands there later. -/
theorem Shows.fills {skeleton t : StaticType} (h : shapes.Shows building cache skeleton t)
    (grown : start.Le cache) : Fills (shapes.Stands start building cache) skeleton t := by
  refine ⟨cache.shown, h.shown, fun m hm => ?_⟩
  obtain @⟨id, name, fields, hid, later⟩ := h.reached hm
  cases found : cache.lookup id with
  | some t =>
    rw [shown_complete found]
    exact .complete hid found
  | none =>
    rw [shown_missing found]
    exact .named hid (grown.missing found) later

namespace Sound

theorem empty : shapes.Sound names limit [] [] [] where
  grown := .refl _
  found h := absurd h List.not_mem_nil
  named h := nomatch h
  missing h := absurd h List.not_mem_nil
  completed h := nomatch h

/-- What is remembered may be what there was at the start. -/
theorem restart (h : shapes.Sound names limit start building cache) :
    shapes.Sound names limit cache building cache :=
  ⟨.refl _, h.found, h.named, h.missing, .inl⟩

/-- One more shape is being built. -/
theorem enter {id : ShapeId} (h : shapes.Sound names limit start building cache)
    (hid : cache.lookup id = none) : shapes.Sound names limit start (id :: building) cache where
  grown := h.grown
  found := h.found
  named := h.named
  missing hmem := by
    rcases List.mem_cons.mp hmem with rfl | hmem
    · exact hid
    · exact h.missing hmem
  completed ht := (h.completed ht).imp_right fun completed =>
    completed.mono (.refl _) fun _ hmem => .inl (List.mem_cons_of_mem _ hmem)

/-- A shape is complete. -/
theorem complete {id : ShapeId} {name : String} {fields : List (String × StaticType)}
    {skeletons made : List (String × StaticType × Bool)}
    (h : shapes.Sound names limit start (id :: building) cache) (new : id ∉ building)
    (hid : shapes.lookup id = some (name, fields))
    (hskeletons : shapes.HasFieldSkeletons names limit id fields skeletons)
    (hmade : List.Forall₂ (SameField (shapes.Shows (id :: building) cache)) skeletons made) :
    shapes.Sound names limit start building ((id, Names.shapeOf id name made) :: cache) := by
  have hle := OutputCache.Le.cons (h.missing List.mem_cons_self) (Names.shapeOf id name made)
  have self : List.lookup id ((id, Names.shapeOf id name made) :: cache)
      = some (Names.shapeOf id name made) := by simp
  have other {id' : ShapeId} (hne : id' ≠ id) :
      List.lookup id' ((id, Names.shapeOf id name made) :: cache) = cache.lookup id' := by
    rw [List.lookup_cons, beq_false_of_ne hne]
  -- what referred to the shape while it was being built refers to it now that it is complete
  have left (id' : ShapeId) (hmem : id' ∈ id :: building) : id' ∈ building ∨
      (List.lookup id' ((id, Names.shapeOf id name made) :: cache)).isSome = true := by
    rcases List.mem_cons.mp hmem with rfl | hmem
    · exact .inr (by rw [self]; rfl)
    · exact .inl hmem
  refine ⟨h.grown.trans hle, ?_, ?_, ?_, ?_⟩
  · intro id' t ht
    rcases List.mem_cons.mp ht with heq | ht
    · cases heq
      exact self
    · exact hle _ _ (h.found ht)
  · intro id' t ht
    by_cases hne : id' = id
    · subst hne
      obtain rfl := Option.some.inj (self.symm.trans ht)
      exact ⟨name, fields, made, hid, rfl⟩
    · exact h.named ((other hne).symm.trans ht)
  · intro id' hmem
    have hne : id' ≠ id := fun same => new (same ▸ hmem)
    rw [other hne]
    exact h.missing (List.mem_cons_of_mem _ hmem)
  · intro id' t ht
    by_cases hne : id' = id
    · subst hne
      obtain rfl := Option.some.inj (self.symm.trans ht)
      refine .inr (Completed.mono ?_ hle left)
      exact ⟨hid, hskeletons, hmade.imp fun _ _ h' => h'.mono fun _ _ h' => h'.fills h.grown⟩
    · exact (h.completed ((other hne).symm.trans ht)).imp_right fun completed =>
        completed.mono hle left

/-- What is shown in the place of stubs is equal if the stubs are. -/
theorem faithful (h : shapes.Sound names limit start building cache) (closed : shapes.Closed names)
    {joints : List StaticType} (reached : ∀ m ∈ joints, shapes.Reached building cache m) :
    StaticType.Faithful cache.shown joints := by
  have isJoint {m : StaticType} (hm : m ∈ joints) : (cache.shown m).isJoint = true := by
    obtain @⟨id, name, fields, hid, _⟩ := reached m hm
    cases found : cache.lookup id with
    | none => rw [shown_missing found]; rfl
    | some t =>
      obtain ⟨_, _, _, _, rfl⟩ := h.named found
      rw [shown_complete found]
      rfl
  have apart {id id' : ShapeId} {t : StaticType} (absent : cache.lookup id = none)
      (complete : cache.lookup id' = some t) : id ≠ id' := by
    rintro rfl
    rw [absent] at complete
    cases complete
  refine ⟨isJoint, fun {m n} hm hn => ?_⟩
  obtain @⟨id, name, fields, hid, _⟩ := reached m hm
  obtain @⟨id', name', fields', hid', _⟩ := reached n hn
  -- one shape is complete or not in all places alike, so a shape is never compared with its own name
  rw [equal_stubs]
  cases found : cache.lookup id with
  | none =>
    rw [shown_missing found]
    cases found' : cache.lookup id' with
    | none =>
      rw [shown_missing found', StaticType.equal, closed.beq_names hid hid']
    | some t =>
      obtain ⟨_, _, _, _, rfl⟩ := h.named found'
      rw [shown_complete found', beq_false_of_ne (apart found found')]
      exact StaticType.equal_of_ctorIdx_ne (by rintro ⟨⟩)
  | some t =>
    obtain ⟨_, _, _, _, rfl⟩ := h.named found
    rw [shown_complete found]
    cases found' : cache.lookup id' with
    | none =>
      rw [shown_missing found', beq_false_of_ne (apart found' found).symm]
      exact StaticType.equal_of_ctorIdx_ne (by rintro ⟨⟩)
    | some t' =>
      obtain ⟨_, _, _, _, rfl⟩ := h.named found'
      rw [shown_complete found', Names.shapeOf, Names.shapeOf, StaticType.equal, beq_output]

end Sound

end Shapes

end Schemata
