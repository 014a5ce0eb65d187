import Mathlib.Data.List.Perm.Subperm
import Schemata.Proofs.Schema.Ends
import Schemata.Proofs.Schema.Graph

/-!
# The calls of a compilation

Compiling a schema calls itself for the children and, for a lazy schema without a number, for the
first schema behind it that is not lazy. `Compiles` tells what these calls come to without a bound on
their depth, and which lazy schemas are translated on the way. A lazy schema has its number before it
is translated, so none is translated twice, and the depth that compiling starts with is never used up.
What else compiling does follows from these calls.
-/

namespace Schemata

/-- The plan of a composite schema whose children have the plans `ps`. -/
def Schema.planWith : Schema → (ps : List Plan) → Plan
  | .array .., [p] => .list p
  | .record .., [p, q] => .dict p q
  | .tuple .., ps => .tuple ps
  | .union .., ps => .union ps
  | .wrapper _ w _, [p] => Scope.planOfWrapper w p
  | .pipe .., [p, q] => .chain p q
  | _, _ => default

namespace Draft

variable {d : Draft} {id : NodeId}

theorem not_mem_reached (h : d.number? id = none) : id ∉ d.reached := by
  intro hid
  simpa using List.findIdx?_eq_none_iff.mp h id hid

/-- What is reached once more is new. -/
theorem nodup_reach (h : d.reached.Nodup) (new : d.number? id = none) :
    (d.reach id).reached.Nodup :=
  List.nodup_append.mpr ⟨h, by simp, by
    rintro a ha b hb rfl
    exact not_mem_reached new (List.mem_singleton.mp hb ▸ ha)⟩

end Draft

/-! ## Outcomes of compilations -/

namespace Compilation

variable {α β : Type} {d : Draft}

theorem exists_of_map {x : Except Failure α} {f : α → β} {b : β} (h : x.map f = .ok b) :
    ∃ a, x = .ok a ∧ f a = b := by
  cases x with
  | error failure => cases h
  | ok a => exact ⟨a, rfl, Except.ok.inj h⟩

/-- The outcome of a compilation that goes on with `f` and leaves the draft alone. -/
def mapResult (f : α → β) (x : Except Failure (α × Draft)) : Except Failure (β × Draft) :=
  x.map (.map f id)

theorem exists_of_mapResult {f : α → β} {x : Except Failure (α × Draft)} {b : β}
    (h : mapResult f x = .ok (b, d)) : ∃ a, x = .ok (a, d) ∧ b = f a := by
  obtain ⟨⟨a, d'⟩, hx, made⟩ := exists_of_map h
  cases made
  exact ⟨a, hx, rfl⟩

end Compilation

namespace Scope

open Compilation

section

variable (scope : Scope) (limit : Nat)

/-- The children are compiled in order. -/
theorem planOf_composite {depth : Nat} {s : Schema} (hs : s.isComposite = true) :
    scope.planOf limit depth s = do
      let ps ← scope.planOfAll limit depth s.children
      return s.planWith ps := by
  cases s with
  | leaf | object | lazy => cases hs
  | tuple | union => rw [planOf]; rfl
  | array | record | wrapper | pipe =>
    rw [planOf]
    simp [Schema.children, planOfAll, Schema.planWith]

mutual

/-- Compiling a schema from a draft translates the lazy schemas `opened`, in this order, and has the
given outcome. -/
inductive Compiles : Draft → Schema → (opened : List NodeId) → Except Failure (Plan × Draft) → Prop
  | leaf {d : Draft} {id : NodeId} {l : Leaf} :
    Compiles d (.leaf id l) [] ((planOfLeaf l).run d).outcome
  | object {d : Draft} {id : NodeId} {shape : List (String × Schema)} {opened : List NodeId}
      {x : Except Failure (List (Field Plan) × Draft)} :
    CompilesShape d shape opened x → Compiles d (.object id shape) opened (mapResult .object x)
  | composite {d : Draft} {s : Schema} {opened : List NodeId}
      {x : Except Failure (List Plan × Draft)} :
    s.isComposite = true → CompilesAll d s.children opened x →
    Compiles d s opened (mapResult s.planWith x)
  /-- A lazy schema with a number. -/
  | reference {d : Draft} {id : NodeId} {n : Nat} : d.number? id = some n →
    Compiles d (.lazy id) [] (.ok (.reference n, d))
  /-- A lazy schema that leads to no schema. -/
  | astray {d : Draft} {id : NodeId} {failure : Failure} : d.number? id = none →
    (scope.force limit limit (.lazy id)).outcome = .error failure →
    Compiles d (.lazy id) [] (.error failure)
  | target {d : Draft} {id : NodeId} {t : Schema} {opened : List NodeId}
      {x : Except Failure (Plan × Draft)} : d.number? id = none →
    (scope.force limit limit (.lazy id)).outcome = .ok t → Compiles (d.reach id) t opened x →
    Compiles d (.lazy id) (id :: opened)
      (x.map fun (p, d') => (.reference d.reached.length, d'.complete d.reached.length p))

/-- The same for schemas that are compiled in order. -/
inductive CompilesAll :
    Draft → List Schema → (opened : List NodeId) → Except Failure (List Plan × Draft) → Prop
  | nil {d : Draft} : CompilesAll d [] [] (.ok ([], d))
  | stop {d : Draft} {s : Schema} {rest : List Schema} {opened : List NodeId} {failure : Failure} :
    Compiles d s opened (.error failure) → CompilesAll d (s :: rest) opened (.error failure)
  | cons {d d' : Draft} {s : Schema} {rest : List Schema} {opened opened' : List NodeId} {p : Plan}
      {x : Except Failure (List Plan × Draft)} :
    Compiles d s opened (.ok (p, d')) → CompilesAll d' rest opened' x →
    CompilesAll d (s :: rest) (opened ++ opened') (mapResult (p :: ·) x)

/-- The same for the properties of an object. -/
inductive CompilesShape : Draft → List (String × Schema) → (opened : List NodeId) →
    Except Failure (List (Field Plan) × Draft) → Prop
  | nil {d : Draft} : CompilesShape d [] [] (.ok ([], d))
  | stop {d : Draft} {name : String} {s : Schema} {rest : List (String × Schema)}
      {opened : List NodeId} {failure : Failure} :
    Compiles d s opened (.error failure) →
    CompilesShape d ((name, s) :: rest) opened (.error failure)
  /-- There is no decision on the absence of a property. -/
  | undecided {d d' : Draft} {name : String} {s : Schema} {rest : List (String × Schema)}
      {opened : List NodeId} {p : Plan} {failure : Failure} :
    Compiles d s opened (.ok (p, d')) → (scope.absence limit s).outcome = .error failure →
    CompilesShape d ((name, s) :: rest) opened (.error failure)
  | cons {d d' : Draft} {name : String} {s : Schema} {rest : List (String × Schema)}
      {opened opened' : List NodeId} {p : Plan} {absence : Option Kind}
      {x : Except Failure (List (Field Plan) × Draft)} :
    Compiles d s opened (.ok (p, d')) → (scope.absence limit s).outcome = .ok absence →
    CompilesShape d' rest opened' x →
    CompilesShape d ((name, s) :: rest) (opened ++ opened')
      (mapResult (fieldOf name s p absence :: ·) x)

end

end

variable {scope : Scope} {limit : Nat}

/-! ## What is translated -/

/-- The lazy schemas with getters. -/
def known (scope : Scope) : List NodeId :=
  scope.getters.map (·.1)

/-- Forcing a lazy schema asks it first. -/
theorem mem_known_of_force {budget : Nat} {id : NodeId} {t : Schema}
    (h : (scope.force limit budget (.lazy id)).outcome = .ok t) : id ∈ scope.known := by
  cases budget with
  | zero => cases h
  | succ budget =>
    -- The first round asks the lazy schema itself, and without a getter that fails.
    obtain ⟨s, hs, _⟩ := Trail.exists_of_outcome_bind h
    cases found : scope.getters.lookup id with
    | none =>
      change scope.target id = .ok s at hs
      rw [target, found] at hs
      cases hs
    | some getter => exact List.mem_map_of_mem (mem_of_lookup found)

/-- The lazy schemas `opened` are translated once each and for the first time, and they are all that
has got a number in the end. -/
structure Translates (scope : Scope) {α : Type} (d : Draft) (opened : List NodeId)
    (x : Except Failure (α × Draft)) : Prop where
  known : opened ⊆ scope.known
  nodup : d.reached.Nodup → (d.reached ++ opened).Nodup
  reached {a : α} {d' : Draft} : x = .ok (a, d') → d'.reached = d.reached ++ opened

namespace Translates

variable {α β : Type} {d d' : Draft} {opened opened' : List NodeId}

theorem nothing {x : Except Failure (α × Draft)} (h : ∀ a d', x = .ok (a, d') → d' = d) :
    scope.Translates d [] x where
  known := List.nil_subset _
  nodup h := by rwa [List.append_nil]
  reached hx := by rw [h _ _ hx, List.append_nil]

theorem stop {x : Except Failure (α × Draft)} {failure : Failure} (h : scope.Translates d opened x) :
    scope.Translates d opened (.error failure : Except Failure (β × Draft)) where
  known := h.known
  nodup := h.nodup
  reached := by rintro _ _ ⟨⟩

/-- The result does not matter, only the schemas that have numbers. -/
theorem map {x : Except Failure (α × Draft)} {f : α × Draft → β × Draft}
    (h : scope.Translates d opened x) (hf : ∀ a d', (f (a, d')).2.reached = d'.reached) :
    scope.Translates d opened (x.map f) where
  known := h.known
  nodup := h.nodup
  reached {b d₂} hx := by
    cases x with
    | error failure => cases hx
    | ok y =>
      obtain ⟨a, d₁⟩ := y
      have same := hf a d₁
      rw [Except.ok.inj hx] at same
      rw [same, h.reached rfl]

/-- One after another. -/
theorem append {a : α} {x : Except Failure (β × Draft)} (h : scope.Translates d opened (.ok (a, d')))
    (h' : scope.Translates d' opened' x) : scope.Translates d (opened ++ opened') x where
  known := List.append_subset.mpr ⟨h.known, h'.known⟩
  nodup once := by
    have later := h'.nodup (h.reached rfl ▸ h.nodup once)
    rwa [h.reached rfl, List.append_assoc] at later
  reached hx := by rw [h'.reached hx, h.reached rfl, List.append_assoc]

/-- A lazy schema has its number while the schema behind it is compiled. -/
theorem behind {id : NodeId} {x : Except Failure (α × Draft)} (h : scope.Translates (d.reach id) opened x)
    (new : d.number? id = none) (hid : id ∈ scope.known) : scope.Translates d (id :: opened) x where
  known := List.cons_subset.mpr ⟨hid, h.known⟩
  nodup once := by
    -- The schema behind starts from a draft that ends in `id`, so `id` does not come up again.
    have inside := h.nodup (Draft.nodup_reach once new)
    rwa [Draft.reach, List.append_assoc] at inside
  reached hx := by
    rw [h.reached hx, Draft.reach, List.append_assoc]
    rfl

end Translates

theorem eq_of_planOfLeaf {l : Leaf} {d d' : Draft} {p : Plan}
    (h : ((planOfLeaf l).run d).outcome = .ok (p, d')) : planOfLeaf l = pure p ∧ d' = d := by
  cases l with
  | base => cases h
  | _ => cases h; exact ⟨rfl, rfl⟩

mutual

theorem Compiles.translates {d : Draft} {s : Schema} {opened : List NodeId}
    {x : Except Failure (Plan × Draft)} :
    scope.Compiles limit d s opened x → scope.Translates d opened x
  | .leaf => .nothing fun _ _ h => (eq_of_planOfLeaf h).2
  | .object h => (CompilesShape.translates h).map fun _ _ => rfl
  | .composite _ h => (CompilesAll.translates h).map fun _ _ => rfl
  | .reference _ => .nothing (by rintro _ _ ⟨⟩; rfl)
  | .astray _ _ => .nothing (by rintro _ _ ⟨⟩)
  | .target new ht h => ((Compiles.translates h).behind new (mem_known_of_force ht)).map fun _ _ => rfl

theorem CompilesAll.translates {d : Draft} {ss : List Schema} {opened : List NodeId}
    {x : Except Failure (List Plan × Draft)} :
    scope.CompilesAll limit d ss opened x → scope.Translates d opened x
  | .nil => .nothing (by rintro _ _ ⟨⟩; rfl)
  | .stop h => (Compiles.translates h).stop
  | .cons h rest => ((Compiles.translates h).append (CompilesAll.translates rest)).map fun _ _ => rfl

theorem CompilesShape.translates {d : Draft} {shape : List (String × Schema)} {opened : List NodeId}
    {x : Except Failure (List (Field Plan) × Draft)} :
    scope.CompilesShape limit d shape opened x → scope.Translates d opened x
  | .nil => .nothing (by rintro _ _ ⟨⟩; rfl)
  | .stop h => (Compiles.translates h).stop
  | .undecided h _ => (Compiles.translates h).stop
  | .cons h _ rest => ((Compiles.translates h).append (CompilesShape.translates rest)).map fun _ _ => rfl

end

/-! ## Determinism -/

mutual

/-- What a schema compiles to from a draft is determined, and so is what is translated on the way. -/
theorem Compiles.det {d : Draft} {s : Schema} {opened opened' : List NodeId}
    {x x' : Except Failure (Plan × Draft)} :
    scope.Compiles limit d s opened x → scope.Compiles limit d s opened' x' →
      opened = opened' ∧ x = x'
  | .leaf, h' => by
    -- A leaf is compiled by one constructor only: it is not composite.
    cases h' with
    | leaf => exact ⟨rfl, rfl⟩
    | composite hs => cases hs
  | .object h, h' => by
    cases h' with
    | object h' =>
      obtain ⟨rfl, rfl⟩ := CompilesShape.det h h'
      exact ⟨rfl, rfl⟩
    | composite hs => cases hs
  | .composite hs h, h' => by
    cases h' with
    | composite _ h' =>
      obtain ⟨rfl, rfl⟩ := CompilesAll.det h h'
      exact ⟨rfl, rfl⟩
    | leaf | object | reference | astray | target => cases hs
  | .reference hn, h' => by
    cases h' with
    | reference hn' =>
      obtain rfl := Option.some.inj (hn.symm.trans hn')
      exact ⟨rfl, rfl⟩
    | astray new | target new => cases hn.symm.trans new
    | composite hs => cases hs
  | .astray new hfails, h' => by
    -- Whether there is a number and where the lazy schema leads decide which constructor it is.
    cases h' with
    | reference hn => cases hn.symm.trans new
    | astray _ hfails' => exact ⟨rfl, congrArg _ (Except.error.inj (hfails.symm.trans hfails'))⟩
    | target _ ht => cases hfails.symm.trans ht
    | composite hs => cases hs
  | .target new ht h, h' => by
    cases h' with
    | reference hn => cases hn.symm.trans new
    | astray _ hfails => cases hfails.symm.trans ht
    | target _ ht' h' =>
      obtain rfl := Except.ok.inj (ht.symm.trans ht')
      obtain ⟨rfl, rfl⟩ := Compiles.det h h'
      exact ⟨rfl, rfl⟩
    | composite hs => cases hs

theorem CompilesAll.det {d : Draft} {ss : List Schema} {opened opened' : List NodeId}
    {x x' : Except Failure (List Plan × Draft)} :
    scope.CompilesAll limit d ss opened x → scope.CompilesAll limit d ss opened' x' →
      opened = opened' ∧ x = x'
  | .nil, .nil => ⟨rfl, rfl⟩
  | .stop h, h' => by
    -- Both stop at the first schema, or the one that goes on contradicts the failure.
    cases h' with
    | stop h' =>
      obtain ⟨rfl, hx⟩ := Compiles.det h h'
      exact ⟨rfl, congrArg _ (Except.error.inj hx)⟩
    | cons h' => cases (Compiles.det h h').2
  | .cons h rest, h' => by
    -- The rests start from the same draft, because the first schema leaves one draft only.
    cases h' with
    | stop h' => cases (Compiles.det h h').2
    | cons h' rest' =>
      obtain ⟨rfl, hx⟩ := Compiles.det h h'
      cases hx
      obtain ⟨rfl, rfl⟩ := CompilesAll.det rest rest'
      exact ⟨rfl, rfl⟩

theorem CompilesShape.det {d : Draft} {shape : List (String × Schema)}
    {opened opened' : List NodeId} {x x' : Except Failure (List (Field Plan) × Draft)} :
    scope.CompilesShape limit d shape opened x → scope.CompilesShape limit d shape opened' x' →
      opened = opened' ∧ x = x'
  | .nil, .nil => ⟨rfl, rfl⟩
  | .stop h, h' => by
    cases h' with
    | stop h' =>
      obtain ⟨rfl, hx⟩ := Compiles.det h h'
      exact ⟨rfl, congrArg _ (Except.error.inj hx)⟩
    | undecided h' | cons h' => cases (Compiles.det h h').2
  | .undecided h hfails, h' => by
    -- The schema of the property compiles, so what stops here is the decision on its absence.
    cases h' with
    | stop h' => cases (Compiles.det h h').2
    | undecided h' hfails' =>
      obtain ⟨rfl, _⟩ := Compiles.det h h'
      exact ⟨rfl, congrArg _ (Except.error.inj (hfails.symm.trans hfails'))⟩
    | cons _ habsence => cases hfails.symm.trans habsence
  | .cons h habsence rest, h' => by
    cases h' with
    | stop h' => cases (Compiles.det h h').2
    | undecided _ hfails => cases hfails.symm.trans habsence
    | cons h' habsence' rest' =>
      obtain ⟨rfl, hx⟩ := Compiles.det h h'
      cases hx
      obtain rfl := Except.ok.inj (habsence.symm.trans habsence')
      obtain ⟨rfl, rfl⟩ := CompilesShape.det rest rest'
      exact ⟨rfl, rfl⟩

end

/-! ## Ends -/

mutual

/-- No bound on the depth is used up where there is none. -/
theorem Compiles.ends {d : Draft} {s : Schema} {opened : List NodeId}
    {x : Except Failure (Plan × Draft)} : scope.Compiles limit d s opened x → Ends x
  | .leaf => planOfLeaf_ends _ _
  | .object h => (CompilesShape.ends h).map _
  | .composite _ h => (CompilesAll.ends h).map _
  | .reference _ => .ok _
  | .astray _ hfails => (hfails ▸ scope.force_ends limit limit _).of_error
  | .target _ _ h => (Compiles.ends h).map _

theorem CompilesAll.ends {d : Draft} {ss : List Schema} {opened : List NodeId}
    {x : Except Failure (List Plan × Draft)} : scope.CompilesAll limit d ss opened x → Ends x
  | .nil => .ok _
  | .stop h => (Compiles.ends h).of_error
  | .cons _ rest => (CompilesAll.ends rest).map _

theorem CompilesShape.ends {d : Draft} {shape : List (String × Schema)} {opened : List NodeId}
    {x : Except Failure (List (Field Plan) × Draft)} :
    scope.CompilesShape limit d shape opened x → Ends x
  | .nil => .ok _
  | .stop h => (Compiles.ends h).of_error
  | .undecided _ hfails => (hfails ▸ scope.absence_ends limit _).of_error
  | .cons _ _ rest => (CompilesShape.ends rest).map _

end

/-! ## Enough depth -/

/-- A draft leaves room for `depth` definitions in progress: those in progress and those completed
are definitions of different lazy schemas with getters. -/
structure Roomy (scope : Scope) (depth : Nat) (d : Draft) : Prop where
  once : d.reached.Nodup
  known : d.reached ⊆ scope.known
  enough : scope.getters.length < depth + d.reached.length

variable {depth : Nat} {d : Draft}

theorem Roomy.start : scope.Roomy (scope.getters.length + 1) .empty where
  once := List.nodup_nil
  known := List.nil_subset _
  enough := Nat.lt_succ_self _

/-- What is in progress and what is completed cannot use the depth up. -/
theorem Roomy.pos (room : scope.Roomy depth d) : ∃ rest, depth = rest + 1 := by
  -- With no depth left, there would be more lazy schemas reached than there are getters.
  have few := (room.once.subperm room.known).length_le
  rw [Scope.known, List.length_map] at few
  have enough := room.enough
  exact ⟨depth - 1, by omega⟩

/-- A further lazy schema can be reached. -/
theorem Roomy.reach {id : NodeId} (room : scope.Roomy (depth + 1) d) (new : d.number? id = none)
    (hid : id ∈ scope.known) : scope.Roomy depth (d.reach id) where
  once := Draft.nodup_reach room.once new
  known := List.append_subset.mpr ⟨room.known, by simpa using hid⟩
  enough := by
    have := room.enough
    rw [Draft.reach, List.length_append, List.length_singleton]
    omega

/-- What is translated leaves as much room as there was. -/
theorem Roomy.grown {α : Type} {d' : Draft} {opened : List NodeId} {a : α}
    (room : scope.Roomy depth d) (h : scope.Translates d opened (.ok (a, d'))) :
    scope.Roomy depth d' where
  once := h.reached rfl ▸ h.nodup room.once
  known := h.reached rfl ▸ List.append_subset.mpr ⟨room.known, h.known⟩
  enough := by
    have := room.enough
    rw [h.reached rfl, List.length_append]
    omega

/-- Compiling `s` at this depth, from a draft with enough room, makes the calls that it makes without
a bound on the depth. -/
abbrev Called (scope : Scope) (limit depth : Nat) (s : Schema) : Prop :=
  ∀ ⦃d : Draft⦄, scope.Roomy depth d →
    ∃ opened, scope.Compiles limit d s opened ((scope.planOf limit depth s).run d).outcome

theorem planOfAll_compiles {ss : List Schema} (each : ∀ s ∈ ss, scope.Called limit depth s)
    (room : scope.Roomy depth d) :
    ∃ opened, scope.CompilesAll limit d ss opened ((scope.planOfAll limit depth ss).run d).outcome := by
  induction ss generalizing d with
  | nil => exact ⟨[], by simpa [planOfAll] using .nil⟩
  | cons s rest ih =>
    obtain ⟨opened, first⟩ := each s List.mem_cons_self room
    cases hs : ((scope.planOf limit depth s).run d).outcome with
    | error failure =>
      rw [hs] at first
      exact ⟨opened, by simpa [planOfAll, hs] using .stop first⟩
    | ok made =>
      obtain ⟨p, d'⟩ := made
      rw [hs] at first
      -- The rest starts where the first one stopped, with the room that is left there.
      obtain ⟨opened', others⟩ := ih (fun s hs => each s (List.mem_cons_of_mem _ hs))
        (room.grown first.translates)
      exact ⟨opened ++ opened', by simpa [planOfAll, hs, mapResult] using .cons first others⟩

theorem planOfShape_compiles {shape : List (String × Schema)}
    (each : ∀ s ∈ shape.map (·.2), scope.Called limit depth s) (room : scope.Roomy depth d) :
    ∃ opened, scope.CompilesShape limit d shape opened
      ((scope.planOfShape limit depth shape).run d).outcome := by
  induction shape generalizing d with
  | nil => exact ⟨[], by simpa [planOfShape] using .nil⟩
  | cons property rest ih =>
    obtain ⟨name, s⟩ := property
    obtain ⟨opened, first⟩ := each s List.mem_cons_self room
    cases hs : ((scope.planOf limit depth s).run d).outcome with
    | error failure =>
      rw [hs] at first
      exact ⟨opened, by simpa [planOfShape, hs] using .stop first⟩
    | ok made =>
      obtain ⟨p, d'⟩ := made
      rw [hs] at first
      -- Whether the property may be absent is decided once its schema is compiled. The decision
      -- leaves the draft alone, so it matters only when it fails.
      cases habsence : (scope.absence limit s).outcome with
      | error failure =>
        exact ⟨opened, by simpa [planOfShape, hs, habsence] using .undecided first habsence⟩
      | ok absence =>
        obtain ⟨opened', others⟩ := ih (fun s hs => each s (List.mem_cons_of_mem _ hs))
          (room.grown first.translates)
        refine ⟨opened ++ opened', ?_⟩
        simpa [planOfShape, hs, habsence, mapResult] using .cons first habsence others

theorem planOf_compiles (depth : Nat) (s : Schema) : scope.Called limit depth s := by
  intro d room
  -- Children are compiled at the same depth. Only a schema behind a lazy one is a level deeper, and
  -- there the room is what says that the level exists.
  have children (c : Schema) (hc : c ∈ s.children) : scope.Called limit depth c :=
    planOf_compiles depth c
  cases composite : s.isComposite with
  | true =>
    obtain ⟨opened, h⟩ := planOfAll_compiles children room
    refine ⟨opened, ?_⟩
    simpa [planOf_composite scope limit composite, mapResult] using .composite composite h
  | false =>
    cases s with
    | leaf id l => exact ⟨[], by rw [planOf]; exact .leaf⟩
    | object id shape =>
      obtain ⟨opened, h⟩ := planOfShape_compiles children room
      exact ⟨opened, by simpa [planOf, mapResult] using .object h⟩
    | lazy id =>
      cases hnumber : d.number? id with
      | some n => exact ⟨[], by simpa [planOf, hnumber] using .reference hnumber⟩
      | none =>
        obtain ⟨rest, rfl⟩ := room.pos
        cases hforce : (scope.force limit limit (.lazy id)).outcome with
        | error failure =>
          exact ⟨[], by simpa [planOf, hnumber, hforce] using .astray hnumber hforce⟩
        | ok target =>
          obtain ⟨opened, h⟩ := planOf_compiles rest target
            (room.reach hnumber (mem_known_of_force hforce))
          refine ⟨id :: opened, ?_⟩
          simpa [planOf, hnumber, hforce] using .target hnumber hforce h
    | array | record | tuple | union | wrapper | pipe => cases composite
termination_by (depth, sizeOf s)
decreasing_by
  · exact .right _ (Schema.sizeOf_lt_of_mem_children hc)
  · exact .left _ _ (by omega)

/-- Compiling a schema makes the calls that it makes without a bound on their depth. -/
theorem compile_compiles (limit : Nat) (s : Schema) :
    ∃ opened x, scope.Compiles limit .empty s opened x ∧
      (scope.compile limit s).outcome =
        x.map fun (root, d) => { root, definitions := d.definitions } := by
  obtain ⟨opened, h⟩ := planOf_compiles (scope.getters.length + 1) s
    (Roomy.start : scope.Roomy _ _)
  refine ⟨opened, _, h, ?_⟩
  rw [compile, Trail.outcome_bind]
  cases ((scope.planOf limit (scope.getters.length + 1) s).run .empty).outcome <;> rfl

/-- A schema compiles to a validator just when its calls come to the root and the definitions. -/
theorem compile_eq_ok_iff {s : Schema} {v : Validator} :
    (scope.compile limit s).outcome = .ok v ↔
      ∃ opened d, scope.Compiles limit .empty s opened (.ok (v.root, d)) ∧
        v.definitions = d.definitions := by
  obtain ⟨opened, x, compiles, same⟩ := scope.compile_compiles limit s
  rw [same]
  -- From left to right the calls are those that were made. From right to left the given calls are
  -- these ones, because calls are determined.
  constructor
  · intro made
    cases x with
    | error failure => cases made
    | ok x =>
      cases made
      exact ⟨opened, x.2, compiles, rfl⟩
  · rintro ⟨opened', d, compiles', hdefinitions⟩
    obtain ⟨_, rfl⟩ := compiles.det compiles'
    exact congrArg Except.ok (congrArg (Validator.mk v.root) hdefinitions.symm)

end Scope

end Schemata
