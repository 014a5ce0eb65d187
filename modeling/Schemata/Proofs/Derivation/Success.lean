import Schemata.Proofs.Derivation.Run

/-!
# When derivation succeeds

The type of a schema can be derived just when the schema is grounded: every lazy schema that a search
finds behind lazy schemas without names has a target. A registry is sound if every lazy schema with a
name has its type registered; derivations that succeed keep it sound.
-/

namespace Schemata

mutual

/-- A schema is grounded if a type describes it whose references are all to be skipped. -/
theorem Describes.grounded {ρ : Reading} {scope : Scope} {skip : NodeId → Prop}
    (hrefers : ∀ sid id n, ρ.refers sid id n → skip id)
    (hopens : ∀ id s, ρ.opens id s → scope.target id = .ok s)
    {outer : NodeId → String → Prop} (houter : ∀ id n, outer id n → skip id)
    {s : Schema} {t : StaticType} : Describes ρ outer s t → scope.Grounded skip s
  | .leaf _ => .of_children rfl fun _ hc => absurd hc List.not_mem_nil
  | .object _ _ hfields =>
    .of_children rfl (DescribesAll.grounded hrefers hopens (hrefers _) hfields)
  | .composite hs hts => by
    refine .of_children ?_ (DescribesAll.grounded hrefers hopens houter hts)
    cases s with
    | lazy => cases hs
    | _ => rfl
  | .reference hn => Scope.Grounded.lazy_iff.mpr fun new => absurd (houter _ _ hn) new
  | .target ho ht => Scope.Grounded.lazy_iff.mpr fun _ =>
    ⟨_, hopens _ _ ho, Describes.grounded hrefers hopens houter ht⟩

theorem DescribesAll.grounded {ρ : Reading} {scope : Scope} {skip : NodeId → Prop}
    (hrefers : ∀ sid id n, ρ.refers sid id n → skip id)
    (hopens : ∀ id s, ρ.opens id s → scope.target id = .ok s)
    {outer : NodeId → String → Prop} (houter : ∀ id n, outer id n → skip id)
    {ss : List Schema} {ts : List StaticType} :
    DescribesAll ρ outer ss ts → ∀ s ∈ ss, scope.Grounded skip s
  | .nil => fun _ hs => absurd hs List.not_mem_nil
  | .cons h hs => by
    have first := Describes.grounded hrefers hopens houter h
    have rest := DescribesAll.grounded hrefers hopens houter hs
    exact List.forall_mem_cons.mpr ⟨first, rest⟩

end

theorem DescribesDerived.grounded {scope : Scope} {owners : Owners}
    {refers : NodeId → String → Prop} {skip : NodeId → Prop}
    (h : ∀ id n, refers id n → skip id) {s : Schema} {t : StaticType}
    (hst : DescribesDerived owners refers s t) : scope.Grounded skip s :=
  Describes.grounded (fun _ => h) (fun _ _ => False.elim) h hst

namespace Scope

variable {scope : Scope} {r r' : Registry} {o o' : Owners}

/-- What a search from a registry finds grounded once a derivation has succeeded was grounded
before. -/
theorem Grows.grounded (h : scope.Grows r r' o o' r'.Named) {s : Schema}
    (hs : scope.Grounded r'.IsNamed s) : scope.Grounded r.IsNamed s := by
  refine .of_insert ?_ hs
  rintro id new ⟨n, hn⟩
  obtain ⟨t, u, htarget, _, ht⟩ := h.entries hn new
  exact ⟨t, htarget, ht.grounded fun _ m hm => ⟨m, hm⟩⟩

variable (scope) in
/-- What deriving the type of a schema does. -/
theorem staticType_run (start : Ready r o) (s : Schema) :
    scope.Run r o (fun o' r' t => DescribesDerived o' r'.Named s t) (scope.Seeks r s)
      ((scope.staticType s).exec r) :=
  scope.typeOf_run _ s r o start (Nat.lt_succ_of_le List.countP_le_length)

/-- Deriving the type of a schema succeeds just when the schema is grounded. -/
theorem staticType_isOk_iff (start : Ready r o) (s : Schema) :
    (∃ t r', (scope.staticType s).exec r = (.ok t, r')) ↔ scope.Grounded r.IsNamed s := by
  have run := scope.staticType_run start s
  generalize (scope.staticType s).exec r = x at run
  cases run with
  | @ok t r' o' grows _ ht =>
    refine ⟨fun _ => grows.grounded (ht.grounded fun _ m hm => ⟨m, hm⟩), ?_⟩
    exact fun _ => ⟨t, r', rfl⟩
  | @error failure r' o' id grows hid new htarget =>
    constructor
    · rintro ⟨t, r'', h⟩
      cases h
    · intro ground
      obtain ⟨u, hu⟩ := ground id hid new
      exact absurd (hu.symm.trans htarget) (by simp)

/-! ## Registered types -/

/-- Every lazy schema with a name has its type registered, and the type describes its target; `gives`
tells what the references in the type may stand for. -/
structure Registered (scope : Scope) (gives : Registry → NodeId → String → Prop) (r : Registry)
    (o : Owners) : Prop where
  ready : Ready r o
  entries {id : NodeId} {n : String} : r.Named id n →
    ∃ s t, scope.target id = .ok s ∧ r.names.derived.lookup n = some t
      ∧ DescribesDerived o (gives r) s t

theorem Registered.grows {gives : Registry → NodeId → String → Prop}
    {refers : NodeId → String → Prop} (h : scope.Registered gives r o)
    (grows : scope.Grows r r' o o' refers) (later : ∀ id n, gives r id n → gives r' id n)
    (given : ∀ id n, refers id n → gives r' id n) : scope.Registered gives r' o' where
  ready := grows.ready
  entries {id} {n} hn := by
    by_cases hid : r.IsNamed id
    · obtain ⟨m, hm⟩ := hid
      obtain rfl := (grows.le.named hm).det hn
      obtain ⟨s, t, htarget, hlookup, ht⟩ := h.entries hm
      refine ⟨s, t, htarget, grows.le.lookup h.ready.tidy hlookup, ?_⟩
      exact ht.mono (fun _ _ => grows.owners) later
    · obtain ⟨s, t, htarget, hlookup, ht⟩ := grows.entries hn hid
      exact ⟨s, t, htarget, hlookup, ht.mono (fun _ _ hk => hk) given⟩

/-! ## Sound registries -/

/-- Every lazy schema with a name has its type registered, and the type describes its target. -/
structure Sound (scope : Scope) (r : Registry) (o : Owners) : Prop where
  ready : Ready r o
  entries {id : NodeId} {n : String} : r.Named id n →
    ∃ s t, scope.target id = .ok s ∧ r.names.derived.lookup n = some t
      ∧ DescribesDerived o r.Named s t

/-- Nothing has been derived. -/
structure Fresh (r : Registry) : Prop where
  derived : r.names.derived = []
  lazyNames : r.lazyNames = []

theorem Fresh.not_named (h : Fresh r) (id : NodeId) (n : String) : ¬ r.Named id n := by
  unfold Registry.Named
  rw [h.lazyNames]
  simp

theorem Fresh.ready (h : Fresh r) : Ready r fun _ => none where
  tidy :=
    { counted := fun hn => absurd hn (h.not_named _ _)
      injective := fun hn => absurd hn (h.not_named _ _)
      registered := fun hn => by rw [h.derived] at hn; cases hn }
  numbered hk := nomatch hk

theorem Fresh.sound (h : Fresh r) : scope.Sound r fun _ => none where
  ready := h.ready
  entries hn := absurd hn (h.not_named _ _)

theorem Sound.grows (h : scope.Sound r o) (grows : scope.Grows r r' o o' r'.Named) :
    scope.Sound r' o' := by
  have before : scope.Registered Registry.Named r o := ⟨h.ready, h.entries⟩
  have after := before.grows grows (fun _ _ => grows.le.named) fun _ _ hn => hn
  exact ⟨after.ready, after.entries⟩

/-- What is declared, and what was asked, does not matter. -/
theorem Sound.with (h : scope.Sound r o) (declared : List (Space × String × StaticType))
    (asked : List NodeId) :
    scope.Sound { r with names := { r.names with declared }, asked } o where
  ready := ⟨⟨h.ready.tidy.counted, h.ready.tidy.injective, h.ready.tidy.registered⟩, h.ready.numbered⟩
  entries := h.entries

/-- More lazy schemas may have targets. -/
theorem Sound.widen {scope' : Scope} (h : scope.Sound r o)
    (targets : ∀ id s, scope.target id = .ok s → scope'.target id = .ok s) :
    scope'.Sound r o where
  ready := h.ready
  entries hn := by
    obtain ⟨s, t, htarget, hrest⟩ := h.entries hn
    exact ⟨s, t, targets _ _ htarget, hrest⟩

/-- Deriving the type of a grounded schema gives a description of it. -/
theorem Sound.staticType (h : scope.Sound r o) {s : Schema} (ground : scope.Grounded r.IsNamed s) :
    ∃ t r' o', (scope.staticType s).exec r = (.ok t, r') ∧ scope.Grows r r' o o' r'.Named
      ∧ scope.Sound r' o' ∧ DescribesDerived o' r'.Named s t := by
  obtain ⟨t, r', hexec⟩ := (scope.staticType_isOk_iff h.ready s).mpr ground
  have run := scope.staticType_run h.ready s
  rw [hexec] at run
  cases run with
  | @ok _ _ o' grows _ ht => exact ⟨t, r', o', hexec, grows, h.grows grows, ht⟩

end Scope

end Schemata
