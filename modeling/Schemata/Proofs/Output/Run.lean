import Mathlib.Data.List.Perm.Subperm
import Schemata.Proofs.Mirror.Derived
import Schemata.Proofs.Output.Cache
import Schemata.Proofs.Output.Equations

/-!
# What building an output type does

From a type that describes a schema, the output type of the schema is built, and the shapes that are
completed on the way are those of their objects. It fails only for a schema that has no output type:
because a literal cannot be compared, or because a cycle of lazy schemas passes through no object. All
other cycles end where a shape comes up that is complete or being built.
-/

namespace Schemata

/-! ## Depth -/

namespace Scope

/-- Objects may be entered as long as there are shapes that are not being built. -/
structure Room (bound : List ShapeId) (objects : Nat) (building : List ShapeId) : Prop where
  nodup : building.Nodup
  sub : building ⊆ bound
  enough : bound.length ≤ building.length + objects

namespace Room

variable {bound building : List ShapeId} {objects : Nat} {sid : ShapeId}

theorem pos (h : Room bound objects building) (new : sid ∉ building) (hsid : sid ∈ bound) :
    ∃ fewer, objects = fewer + 1 := by
  -- Shapes that are being built are different and among `bound`, and one of those is not built.
  have sub : sid :: building ⊆ bound := List.cons_subset.mpr ⟨hsid, h.sub⟩
  have := ((List.nodup_cons.mpr ⟨new, h.nodup⟩).subperm sub).length_le
  have := h.enough
  rw [List.length_cons] at *
  exact ⟨objects - 1, by omega⟩

theorem enter (h : Room bound (objects + 1) building) (new : sid ∉ building) (hsid : sid ∈ bound) :
    Room bound objects (sid :: building) where
  nodup := List.nodup_cons.mpr ⟨new, h.nodup⟩
  sub := List.cons_subset.mpr ⟨hsid, h.sub⟩
  enough := by
    have := h.enough
    rw [List.length_cons]
    omega

end Room

/-- What building output types relies on: descriptions can be traversed, shapes belong to objects and
are among `bound`, and different lazy schemas have different names. -/
structure Legible (scope : Scope) (names : Names) (owners : Owners) (ρ : Reading)
    (refers : NodeId → String → Prop) (bound : List ShapeId) : Prop where
  traversable : ρ.Traversable scope names (· = refers) fun _ => False
  leaf {l : Leaf} {t : StaticType} : ρ.leaf l t → t = l.staticType
  shape {sid : ShapeId} {name : String} {shape : List (String × Schema)} : ρ.shape sid name shape →
    ∃ k, sid = .derived k ∧ name = Registry.shapeName k ∧ owners k = some shape ∧ sid ∈ bound
  injective {id id' : NodeId} {n : String} : refers id n → refers id' n → id = id'

section

variable {scope : Scope} {names : Names} {owners : Owners} {ρ : Reading}
  {refers : NodeId → String → Prop} {bound : List ShapeId}

/-- What a name stands for. -/
theorem Legible.target (h : scope.Legible names owners ρ refers bound) {id : NodeId} {n : String}
    (hn : refers id n) : ∃ s t, scope.target id = .ok s ∧ names.derived.lookup n = some t ∧
      Describes ρ refers s t := by
  cases hlookup : names.derived.lookup n with
  | none => exact (h.traversable.unresolved rfl hn hlookup).elim
  | some t =>
    obtain ⟨s, _, rfl, htarget, ht⟩ := h.traversable.resolved rfl hn hlookup
    exact ⟨s, t, htarget, rfl, ht⟩

/-- The fields of a shape describe the properties of the object when they are looked up. -/
theorem Legible.fields (h : scope.Legible names owners ρ refers bound) {sid : ShapeId}
    {shape : List (String × Schema)} {fields : List (String × StaticType)}
    (hnames : shape.map (·.1) = fields.map (·.1))
    (hfields : DescribesAll ρ (ρ.refers sid) (shape.map (·.2)) (fields.map (·.2))) :
    List.Forall₂ (fun property field => property ∈ shape ∧ property.1 = field.1 ∧
        Describes ρ refers property.2 field.2)
      shape (fields.map fun (name, field) => (name, names.evaluate sid field)) := by
  have described := hfields.forall₂
  rw [← List.forall₂_eq_eq_eq] at hnames
  rw [List.forall₂_map_left_iff, List.forall₂_map_right_iff] at hnames described
  rw [List.forall₂_map_right_iff]
  refine List.Forall₂.mp ?_ hnames (forall₂_mem described)
  rintro property field hname ⟨hproperty, _, hst⟩
  obtain ⟨_, houter, looked⟩ := h.traversable.looked hst
  exact ⟨hproperty, hname, houter ▸ looked⟩

/-- References may be followed as long as there are names that were not `seen` on the way, without an
object in between. -/
structure Reserve (scope : Scope) (names : Names) (refers : NodeId → String → Prop)
    (references : Nat) (s : Schema) : Prop where
  guarded : scope.Guarded s
  unseen : ∃ seen : List String, seen.Nodup ∧
    (∀ n ∈ seen, ∃ id, refers id n ∧ Relation.TransGen scope.LeadsBeside (.lazy id) s) ∧
    names.derived.length < seen.length + references

namespace Reserve

theorem start {s : Schema} (h : scope.Guarded s) :
    scope.Reserve names refers (names.derived.length + 1) s :=
  ⟨h, [], .nil, fun _ h => absurd h List.not_mem_nil, by simp⟩

theorem beside {references : Nat} {s s' : Schema} (h : scope.Reserve names refers references s)
    (hs : scope.LeadsBeside s s') : scope.Reserve names refers references s' := by
  obtain ⟨guarded, seen, nodup, hseen, enough⟩ := h
  refine ⟨guarded.of_contains hs.contains, seen, nodup, ?_, enough⟩
  intro n hn
  obtain ⟨id, hid, leads⟩ := hseen n hn
  exact ⟨id, hid, leads.tail hs⟩

/-- There is a name that was not seen yet, so one more reference can be followed. -/
theorem follow (legible : scope.Legible names owners ρ refers bound) {references : Nat} {id : NodeId}
    {n : String} {s : Schema} (h : scope.Reserve names refers references (.lazy id))
    (hn : refers id n) (htarget : scope.target id = .ok s) :
    ∃ fewer, references = fewer + 1 ∧ scope.Reserve names refers fewer s := by
  obtain ⟨guarded, seen, nodup, hseen, enough⟩ := h
  -- a name that was seen before would close a cycle beside all objects
  have new : n ∉ seen := by
    intro hmem
    obtain ⟨id', hid', leads⟩ := hseen n hmem
    obtain rfl := legible.injective hid' hn
    exact guarded id' .refl leads
  have known : n :: seen ⊆ names.derived.map (·.1) := by
    have entry {id : NodeId} {n : String} (hn : refers id n) : n ∈ names.derived.map (·.1) := by
      obtain ⟨_, t, _, hlookup, _⟩ := legible.target hn
      exact List.mem_map.mpr ⟨_, mem_of_lookup hlookup, rfl⟩
    refine List.cons_subset.mpr ⟨entry hn, fun m hm => ?_⟩
    obtain ⟨id', hid', _⟩ := hseen m hm
    exact entry hid'
  have nodup' := List.nodup_cons.mpr ⟨new, nodup⟩
  have := (nodup'.subperm known).length_le
  rw [List.length_cons, List.length_map] at this
  have step : scope.LeadsBeside (.lazy id) s := .target htarget
  refine ⟨references - 1, by omega, guarded.of_contains step.contains, n :: seen, nodup', ?_, ?_⟩
  · intro m hm
    rcases List.mem_cons.mp hm with rfl | hm
    · exact ⟨id, hn, .single step⟩
    · obtain ⟨id', hid', leads⟩ := hseen m hm
      exact ⟨id', hid', leads.tail step⟩
  · rw [List.length_cons]
    omega

end Reserve

/-- The same for schemas that have output types. -/
structure Enough (scope : Scope) (names : Names) (refers : NodeId → String → Prop)
    (references : Nat) (s : Schema) : Prop where
  expressible : scope.Expressible s
  unseen : ∃ seen : List String, seen.Nodup ∧
    (∀ n ∈ seen, ∃ id, refers id n ∧ Relation.TransGen scope.LeadsBeside (.lazy id) s) ∧
    names.derived.length < seen.length + references

namespace Enough

theorem reserve {references : Nat} {s : Schema} (h : scope.Enough names refers references s) :
    scope.Reserve names refers references s :=
  ⟨h.expressible.guarded, h.unseen⟩

theorem start {s : Schema} (h : scope.Expressible s) :
    scope.Enough names refers (names.derived.length + 1) s :=
  ⟨h, (Reserve.start h.guarded).unseen⟩

theorem beside {references : Nat} {s s' : Schema} (h : scope.Enough names refers references s)
    (hs : scope.LeadsBeside s s') : scope.Enough names refers references s' :=
  ⟨h.expressible.of_contains hs.contains, (h.reserve.beside hs).unseen⟩

theorem child {references : Nat} {s c : Schema} (h : scope.Enough names refers references s)
    (hs : s.isComposite = true) (hc : c ∈ s.children) : scope.Enough names refers references c :=
  h.beside (.child hs hc)

theorem follow (legible : scope.Legible names owners ρ refers bound) {references : Nat} {id : NodeId}
    {n : String} {s : Schema} (h : scope.Enough names refers references (.lazy id)) (hn : refers id n)
    (htarget : scope.target id = .ok s) :
    ∃ fewer, references = fewer + 1 ∧ scope.Enough names refers fewer s := by
  obtain ⟨fewer, heq, reserve⟩ := h.reserve.follow legible hn htarget
  exact ⟨fewer, heq, h.expressible.target htarget, reserve.unseen⟩

end Enough

/-! ## Absence -/

/-- A type tells of absence what its schema tells. -/
theorem Legible.absence (h : scope.Legible names owners ρ refers bound) (budget : Nat) {s : Schema}
    {t : StaticType} (hst : Describes ρ refers s t) :
    (scope.absence budget s).outcome = .ok (names.absence budget t) := by
  induction budget generalizing s t with
  | zero => rfl
  | succ budget ih =>
    -- One step on both sides. Which argument a type looks at is fixed by the kind of the schema, and
    -- the argument describes the schema that is looked at.
    have lawful := h.traversable.lawful
    have first {c : SchemaClass} {t : StaticType} {rest : List StaticType} {s : Schema}
        (ht : Describes ρ refers s t) : names.arg (.schema c (some (t :: rest))) 0 = t :=
      names.arg_of_not_isReference rfl (ht.not_isReference lawful)
    have hkind := hst.kind lawful
    rw [Names.absence, ← hkind]
    cases hst with
    | @leaf _ _ l => cases l <;> rfl
    | object => rfl
    | @composite _ s ts hs hts =>
      cases s with
      | leaf | object | lazy => cases hs
      | array | record | tuple | union => rfl
      | wrapper id w inner =>
        obtain ⟨t, rfl, ht⟩ := hts.singleton
        cases w with
        | optional | default => rfl
        | nullable | readonly => exact (ih ht).trans (by rw [first ht]; rfl)
      | pipe id input output =>
        obtain ⟨t, u, rfl, ht, _⟩ := hts.pair
        exact (ih ht).trans (by rw [first ht]; rfl)
    | @reference _ id n hn =>
      obtain ⟨s, t, htarget, hlookup, ht⟩ := h.target hn
      simp [Scope.absence, htarget, ih ht, names.arg_reference, hlookup]
    | @target _ id s t hopens ht =>
      have htarget := h.traversable.opens hopens
      simp [Scope.absence, htarget, ih ht, first ht]

/-! ## Lists -/

variable {limit objects references : Nat} {building : List ShapeId} {cache : OutputCache} {can : Prop}

/-- Building the output type of a type gives the output type of a schema. -/
abbrev Delivers (scope : Scope) (names : Names) (limit : Nat) (owners : Owners)
    (objects references : Nat) (building : List ShapeId) (can : Prop) (s : Schema) (t : StaticType) :
    Prop :=
  ∀ cache, scope.Cached limit owners building cache →
    scope.Outputs limit owners building cache can
      (fun cache' u => scope.YieldsIn owners building cache' s u)
      ((names.outputIn limit objects references building t).exec cache)

theorem outputsIn_run {ss : List Schema} {ts : List StaticType}
    (each : List.Forall₂ (scope.Delivers names limit owners objects references building can) ss ts)
    (start : scope.Cached limit owners building cache) :
    scope.Outputs limit owners building cache can
      (fun cache' us => List.Forall₂ (scope.YieldsIn owners building cache') ss us)
      ((names.outputsIn limit objects references building ts).exec cache) := by
  -- Every type is built with the cache that the one before it has left, so this is for all caches.
  induction each generalizing cache with
  | nil =>
    rw [Names.outputsIn]
    exact .pure start .nil
  | cons first _ ih =>
    rw [Names.outputsIn]
    refine (first cache start).bind ?_
    intro cache₁ u _ cached hu
    refine (ih cached).bind ?_
    intro cache₂ us hle cached' hus
    exact .pure cached' (.cons (hu.mono hle) hus)

/-- The fields that are made for the properties of an object. -/
abbrev Makes (scope : Scope) (limit : Nat) (owners : Owners) (building : List ShapeId)
    (cache : OutputCache) (property : String × Schema) (made : String × StaticType × Bool) : Prop :=
  property.1 = made.1 ∧ scope.YieldsIn owners building cache property.2 made.2.1 ∧
    (made.2.2 = true ↔ scope.MayLack limit property.2)

theorem outputFields_run {shape : List (String × Schema)} {fields : List (String × StaticType)}
    (each : List.Forall₂ (fun property field => property.1 = field.1 ∧
      (scope.absence limit property.2).outcome = .ok (names.absence limit field.2) ∧
      scope.Delivers names limit owners objects references building can property.2 field.2)
      shape fields)
    (start : scope.Cached limit owners building cache) :
    scope.Outputs limit owners building cache can
      (fun cache' made => List.Forall₂ (scope.Makes limit owners building cache') shape made)
      ((names.outputFields limit objects references building fields).exec cache) := by
  induction each generalizing cache with
  | nil =>
    rw [Names.outputFields]
    exact .pure start .nil
  | @cons property field _ _ first _ ih =>
    obtain ⟨name, t⟩ := field
    obtain ⟨hname, habsence, delivers⟩ := first
    rw [Names.outputFields]
    refine (delivers cache start).bind ?_
    intro cache₁ u _ cached hu
    refine (ih cached).bind ?_
    intro cache₂ made hle cached' hmade
    refine .pure cached' (.cons ⟨hname, hu.mono hle, ?_⟩ hmade)
    simp [MayLack, habsence]

/-- The fields that are made for an object make up its output shape. -/
theorem outputShape_of_makes {k : Nat} {shape : List (String × Schema)}
    {made : List (String × StaticType × Bool)}
    (h : List.Forall₂ (scope.Makes limit owners building cache) shape made) :
    scope.OutputShape limit owners cache.Holds (scope.Known owners building cache) k shape
      (Names.shapeOf (.derived k) (Registry.shapeName k) made) := by
  refine .intro ?_ ?_
  · rw [List.forall₂_map_right_iff]
    exact h.imp fun _ _ ⟨hname, hyields, _⟩ => ⟨hname, hyields⟩
  · intro name
    simp only [List.mem_map, List.mem_filter]
    -- The optional names are filtered by the marks, which tell what may be lacking.
    constructor
    · rintro ⟨field, ⟨hmem, hlacks⟩, rfl⟩
      obtain ⟨⟨_, s⟩, hs, rfl, _, lacks⟩ := exists_left_of_forall₂ h hmem
      exact ⟨s, hs, lacks.mp hlacks⟩
    · rintro ⟨s, hs, hlack⟩
      obtain ⟨field, hmem, hname, _, lacks⟩ := exists_right_of_forall₂ h hs
      exact ⟨field, ⟨hmem, lacks.mpr hlack⟩, hname.symm⟩

/-! ## Unions -/

/-- A union is formed, unless its members cannot be compared. -/
theorem unionOf_run {us : List StaticType} {result : OutputCache → StaticType → Prop}
    (start : scope.Cached limit owners building cache)
    (settled : can → ∀ u ∈ us, u.Settled (IsEntry cache.Holds))
    (hresult : ∀ u, StaticType.unionOf us = .ok u → result cache u) :
    scope.Outputs limit owners building cache can result
      (Stateful.exec (liftM (StaticType.unionOf us)) cache) := by
  cases hu : StaticType.unionOf us with
  | ok u => exact .pure start (hresult u hu)
  | error failure =>
    -- Members that are settled can be compared, so a union of them is always formed.
    refine .error start fun possible => ?_
    obtain ⟨u, hu', _⟩ := StaticType.unionOf_ok start.shaped.identified (settled possible)
    rw [hu] at hu'
    cases hu'

/-! ## Every type -/

/-- An object has an output type under every identity, or under none. -/
theorem Expressible.object_congr {id id' : NodeId} {shape : List (String × Schema)}
    (h : scope.Expressible (.object id shape)) : scope.Expressible (.object id' shape) := by
  have inside {s : Schema} (hs : scope.Contains (.object id' shape) s) :
      s = .object id' shape ∨ scope.Contains (.object id shape) s := by
    rcases Relation.ReflTransGen.cases_head hs with rfl | ⟨c, hlead, hs⟩
    · exact .inl rfl
    · cases hlead with
      | child hc => exact .inr (.head (.child hc) hs)
  -- Neither a literal nor a lazy schema is the object itself, so both are found inside it.
  constructor
  · intro j l hl
    rcases inside hl with heq | hl
    · cases heq
    · exact h.atomic j l hl
  · intro j hj
    rcases inside hj with heq | hj
    · cases heq
    · exact h.guarded j hj

/-- A shape that is neither complete nor being built is built, or its object has no output type. -/
theorem newObject_run {k : Nat} {id : NodeId} {shape : List (String × Schema)}
    {fields : List (String × StaticType)} (hk : owners k = some shape)
    (new : ShapeId.derived k ∉ building) (hcached : cache.lookup (.derived k) = none)
    (each : List.Forall₂ (fun property field => property.1 = field.1 ∧
      (scope.absence limit property.2).outcome = .ok (names.absence limit field.2) ∧
      scope.Delivers names limit owners objects references (.derived k :: building)
        (scope.Expressible (.object id shape)) property.2 field.2) shape fields)
    (start : scope.Cached limit owners building cache) :
    scope.Outputs limit owners building cache (scope.Expressible (.object id shape))
      (fun cache' u => scope.YieldsIn owners building cache' (.object id shape) u)
      ((do
          let made ← names.outputFields limit objects references (.derived k :: building) fields
          let output := Names.shapeOf (.derived k) (Registry.shapeName k) made
          modify fun cache => (.derived k, output) :: cache
          return output : Outputting StaticType).exec cache) := by
  have inside := outputFields_run each (start.enter hcached)
  generalize hx : (names.outputFields limit objects references (.derived k :: building) fields).exec
    cache = x at inside
  cases inside with
  | error cached cannot =>
    -- the shape will never be complete, but then its object has no output type
    rw [Stateful.exec_bind_error hx]
    refine .error (cached.giveUp ⟨shape, hk, fun id' possible => ?_⟩) cannot
    exact cannot possible.object_congr
  | @ok made cache' hle cached hmade =>
    rw [Stateful.exec_bind_ok hx]
    have hshape := outputShape_of_makes (k := k) hmade
    -- The shape was not complete while its fields were built, so it is new in the cache.
    have added := OutputCache.Le.cons (cached.missing List.mem_cons_self)
      (Names.shapeOf (.derived k) (Registry.shapeName k) made)
    refine .ok (hle.trans added) (cached.complete new hk hshape) (.shape hk ?_)
    simp [OutputCache.Holds]

/-- A schema with children has an output type if its children have. -/
theorem composite_run {s : Schema} {ts : List StaticType} (hs : s.isComposite = true)
    (atomic : can → scope.Atomic s) (proper : ∀ t ∈ ts, t.isReference = false)
    (each : List.Forall₂ (scope.Delivers names limit owners objects references building can)
      s.children ts)
    (start : scope.Cached limit owners building cache) :
    scope.Outputs limit owners building cache can
      (fun cache' u => scope.YieldsIn owners building cache' s u)
      ((names.outputIn limit objects references building (.schema s.schemaClass (some ts))).exec
        cache) := by
  have settled {c : Schema} {u : StaticType} {cache : OutputCache}
      (cached : scope.Cached limit owners building cache) (hc : c ∈ s.children)
      (hu : scope.YieldsIn owners building cache c u) (possible : can) :
      u.Settled (IsEntry cache.Holds) :=
    hu.settled cached.shaped ((atomic possible).child hc)
  -- One case per class of schemas: the equation says in which order children are built, and what
  -- was yielded for an earlier child still is when a later one has extended the cache.
  cases s with
  | leaf | object | lazy => cases hs
  | array id element =>
    obtain ⟨t, _, first, hnil, rfl⟩ := List.forall₂_cons_left_iff.mp each
    cases hnil
    rw [Schema.schemaClass, names.outputIn_array (proper _ List.mem_cons_self)]
    refine (first cache start).bind ?_
    exact fun cache' u _ cached hu => .pure cached (.array hu)
  | record id key value =>
    obtain ⟨t, _, first, hrest, rfl⟩ := List.forall₂_cons_left_iff.mp each
    obtain ⟨u, _, second, hnil, rfl⟩ := List.forall₂_cons_left_iff.mp hrest
    cases hnil
    obtain ⟨ht, hu⟩ := List.forall_mem_cons.mp proper
    rw [Schema.schemaClass, names.outputIn_record ht (hu _ List.mem_cons_self)]
    refine (first cache start).bind ?_
    intro cache₁ key _ cached hkey
    refine (second cache₁ cached).bind ?_
    intro cache₂ value hle cached' hvalue
    exact .pure cached' (.record (hkey.mono hle) hvalue)
  | tuple id items =>
    rw [Schema.schemaClass, names.outputIn_tuple]
    refine (outputsIn_run each start).bind ?_
    intro cache' us _ cached hus
    refine .pure cached (.tuple hus.length_eq fun pair hpair => ?_)
    exact (List.forall₂_iff_zip.mp hus).2 hpair
  | union id options =>
    rw [Schema.schemaClass]
    cases each with
    | nil =>
      rw [names.outputIn_union_nil]
      exact .pure start .noOption
    | cons first rest =>
      rw [names.outputIn_union_cons]
      refine (outputsIn_run (.cons first rest) start).bind ?_
      intro cache' us _ cached hus
      refine unionOf_run cached ?_ ?_
      · intro possible u hu
        obtain ⟨c, hc, yields⟩ := exists_left_of_forall₂ hus hu
        exact settled cached hc yields possible
      · intro u hu
        exact .union hus.length_eq (fun pair hpair => (List.forall₂_iff_zip.mp hus).2 hpair) hu
  | wrapper id w inner =>
    obtain ⟨t, _, first, hnil, rfl⟩ := List.forall₂_cons_left_iff.mp each
    cases hnil
    have ht := proper _ List.mem_cons_self
    rw [Schema.schemaClass]
    cases hw : w.allowsNone with
    | true =>
      rw [names.outputIn_orNone hw ht]
      refine (first cache start).bind ?_
      intro cache' u _ cached hu
      refine unionOf_run cached ?_ fun _ => .orNone hw hu
      intro possible m hm
      rcases List.mem_pair.mp hm with rfl | rfl
      · exact settled cached (Schema.inner_mem_children id w inner) hu possible
      · exact .none
    | false =>
      rw [names.outputIn_wrapper hw ht]
      exact (first cache start).imp (fun _ _ => .wrapper hw) fun h => h
  | pipe id input output =>
    -- The output of a pipe is that of its second part. The first part is not built at all.
    obtain ⟨t, _, _, hrest, rfl⟩ := List.forall₂_cons_left_iff.mp each
    obtain ⟨u, _, second, hnil, rfl⟩ := List.forall₂_cons_left_iff.mp hrest
    cases hnil
    obtain ⟨_, hu⟩ := List.forall_mem_cons.mp proper
    rw [Schema.schemaClass, names.outputIn_pipe (hu _ List.mem_cons_self)]
    exact (second cache start).imp (fun _ _ => .pipe) fun h => h

/-- What building the output type of a type does, if there is room for objects and, where the schema
has an output type, there are enough references to follow. -/
theorem outputIn_run (legible : scope.Legible names owners ρ refers bound)
    {objects references : Nat} {building : List ShapeId} {cache : OutputCache} {can : Prop}
    (room : Room bound objects building) {s : Schema} {t : StaticType}
    (enough : can → scope.Enough names refers references s) (hst : Describes ρ refers s t)
    (start : scope.Cached limit owners building cache) :
    scope.Outputs limit owners building cache can
      (fun cache' u => scope.YieldsIn owners building cache' s u)
      ((names.outputIn limit objects references building t).exec cache) := by
  have notReference {s : Schema} {t : StaticType} (h : Describes ρ refers s t) :
      t.isReference = false :=
    h.not_isReference legible.traversable.lawful
  -- by recursion on the objects and then the references that are left, and on the type
  match s, t, enough, hst with
  | _, _, _, .leaf hl =>
    obtain rfl := legible.leaf hl
    rw [names.outputIn_leaf]
    exact .pure start .leaf
  | _, _, enough, .object hshape hnames hfields =>
    obtain ⟨k, rfl, rfl, hk, hbound⟩ := legible.shape hshape
    cases hcached : cache.lookup (.derived k) with
    | some u =>
      rw [names.exec_object_complete rfl hcached]
      exact .pure start (.shape hk hcached)
    | none =>
      cases hbuilding : building.contains (ShapeId.derived k) with
      | true =>
        rw [names.exec_object_building rfl hcached hbuilding]
        exact .pure start (.name hk (.inl (List.contains_iff_mem.mp hbuilding)))
      | false =>
        -- An object is entered. References are counted anew in it: a cycle through an object ends.
        have new : ShapeId.derived k ∉ building := by simpa using hbuilding
        obtain ⟨fewer, hfewer⟩ := room.pos new hbound
        rw [hfewer] at room ⊢
        rw [names.exec_object_new rfl hcached hbuilding
          (Names.fieldsOf_of_fault? (legible.traversable.faultless_fields hfields))]
        refine (newObject_run hk new hcached ?_ start).imp (fun _ _ h => h) ?_
        · refine (legible.fields hnames hfields).imp ?_
          rintro property field ⟨hproperty, hname, looked⟩
          refine ⟨hname, legible.absence limit looked, fun _ cached => ?_⟩
          refine outputIn_run legible (room.enter new hbound) ?_ looked cached
          exact fun possible => .start (possible.child (Schema.property_mem_children _ hproperty))
        · exact fun possible => (enough possible).expressible
  | _, _, enough, .composite hs hts =>
    refine composite_run hs (fun possible => (enough possible).expressible.atomic) ?_ ?_ start
    · intro t ht
      obtain ⟨c, _, h⟩ := exists_left_of_forall₂ hts.forall₂ ht
      exact notReference h
    · refine (forall₂_mem hts.forall₂).imp ?_
      rintro c t ⟨hc, ht, h⟩ _ cached
      exact outputIn_run legible room (fun possible => (enough possible).child hs hc) h cached
  | _, _, enough, .reference hn =>
    obtain ⟨s, t, htarget, hlookup, ht⟩ := legible.target hn
    rw [names.outputIn_lazy]
    cases hreferences : references with
    | zero =>
      rw [names.outputOfArg_exhausted]
      -- Only a schema without an output type runs out of references.
      refine .error start fun possible => ?_
      obtain ⟨_, h, _⟩ := (enough possible).follow legible hn htarget
      omega
    | succ fewer =>
      rw [names.outputOfArg_reference _ hlookup]
      have enough' (possible : can) : scope.Enough names refers fewer s := by
        obtain ⟨_, h, enough'⟩ := (enough possible).follow legible hn htarget
        obtain rfl := Nat.succ.inj (hreferences.symm.trans h)
        exact enough'
      refine (outputIn_run legible room enough' ht start).imp ?_ fun h => h
      exact fun _ _ => .lazy htarget
  | _, _, enough, .target hopens ht =>
    have htarget := legible.traversable.opens hopens
    rw [names.outputIn_lazy, names.outputOfArg_zero (notReference ht)]
    have enough' (possible : can) := (enough possible).beside (.target htarget)
    refine (outputIn_run legible room enough' ht start).imp ?_ fun h => h
    exact fun _ _ => .lazy htarget
termination_by (objects, references, sizeOf t)
decreasing_by
  · exact .left _ _ (by omega)
  · refine .right _ (.right _ ?_)
    have := List.sizeOf_lt_of_mem ht
    simp only [StaticType.schema.sizeOf_spec, Option.some.sizeOf_spec]
    omega
  · exact .right _ (.left _ _ (by omega))
  · refine .right _ (.right _ ?_)
    simp only [StaticType.schema.sizeOf_spec, Option.some.sizeOf_spec, List.cons.sizeOf_spec]
    omega

end

end Scope

end Schemata
