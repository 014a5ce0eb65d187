import Schemata.StaticType.Derivation

/-!
# Growth of the registry

Derivation only adds to the registry: names that lazy schemas have stay, and so do the types that are
registered under them. A name that was given out and taken back is dead; it is never given out again.
-/

namespace Schemata

namespace Registry

variable {r r' r'' : Registry} {id id' : NodeId} {n : String}

/-- A lazy schema has a name. -/
def Named (r : Registry) (id : NodeId) (n : String) : Prop :=
  r.lazyNames.lookup id = some n

def IsNamed (r : Registry) (id : NodeId) : Prop :=
  ∃ n, r.Named id n

/-- A name that was given out and taken back. -/
def Dead (r : Registry) (n : String) : Prop :=
  (∃ k < r.lazyCount, n = lazyName k) ∧ ∀ id, ¬ r.Named id n

@[grind →] theorem Named.det {m : String} (h : r.Named id n) (h' : r.Named id m) : n = m :=
  Option.some.inj (h.symm.trans h')

@[grind →] theorem Named.isNamed (h : r.Named id n) : r.IsNamed id :=
  ⟨n, h⟩

theorem not_isNamed_iff : ¬ r.IsNamed id ↔ r.lazyNames.lookup id = none := by
  unfold IsNamed Named
  cases r.lazyNames.lookup id <;> simp

/-- Names in use come from the counter and differ, and only they have registered types. -/
structure Tidy (r : Registry) : Prop where
  counted {id : NodeId} {n : String} : r.Named id n → ∃ k < r.lazyCount, n = lazyName k
  injective {id id' : NodeId} {n : String} : r.Named id n → r.Named id' n → id = id'
  registered {n : String} {t : StaticType} : r.names.derived.lookup n = some t → ∃ id, r.Named id n

attribute [grind →] Tidy.injective

/-- The next name is not in use. -/
@[grind →] theorem Tidy.ne_next (h : r.Tidy) (hn : r.Named id n) : n ≠ lazyName r.lazyCount := by
  obtain ⟨k, hk, rfl⟩ := h.counted hn
  simpa using Nat.ne_of_lt hk

theorem Tidy.not_named_next (h : r.Tidy) : ¬ r.Named id (lazyName r.lazyCount) :=
  fun hn => h.ne_next hn rfl

/-- The next name has no type yet. -/
theorem Tidy.lookup_next (h : r.Tidy) : r.names.derived.lookup (lazyName r.lazyCount) = none := by
  cases hn : r.names.derived.lookup (lazyName r.lazyCount) with
  | none => rfl
  | some t =>
    obtain ⟨id, hid⟩ := h.registered hn
    exact absurd hid h.not_named_next

theorem Dead.lookup (h : r.Dead n) (tidy : r.Tidy) : r.names.derived.lookup n = none := by
  cases hn : r.names.derived.lookup n with
  | none => rfl
  | some t =>
    obtain ⟨id, hid⟩ := tidy.registered hn
    exact absurd hid (h.2 id)

/-! ## Growth -/

/-- What may happen to a registry while schemas are derived. -/
structure Le (r r' : Registry) : Prop where
  named {id : NodeId} {n : String} : r.Named id n → r'.Named id n
  fresh {id : NodeId} {n : String} : r'.Named id n →
    r.Named id n ∨ ∃ k, r.lazyCount ≤ k ∧ n = lazyName k
  derived {id : NodeId} {n : String} : r.Named id n →
    r'.names.derived.lookup n = r.names.derived.lookup n
  declared : r'.names.declared = r.names.declared
  lazyCount : r.lazyCount ≤ r'.lazyCount
  shapeCount : r.shapeCount ≤ r'.shapeCount

namespace Le

theorem refl (r : Registry) : r.Le r where
  named h := h
  fresh h := .inl h
  derived _ := rfl
  declared := rfl
  lazyCount := Nat.le_refl _
  shapeCount := Nat.le_refl _

theorem trans (h : r.Le r') (h' : r'.Le r'') : r.Le r'' where
  named hn := h'.named (h.named hn)
  fresh hn := by
    rcases h'.fresh hn with hn | ⟨k, hk, rfl⟩
    · exact h.fresh hn
    · exact .inr ⟨k, Nat.le_trans h.lazyCount hk, rfl⟩
  derived hn := (h'.derived (h.named hn)).trans (h.derived hn)
  declared := h'.declared.trans h.declared
  lazyCount := Nat.le_trans h.lazyCount h'.lazyCount
  shapeCount := Nat.le_trans h.shapeCount h'.shapeCount

theorem isNamed (h : r.Le r') (hid : r.IsNamed id) : r'.IsNamed id :=
  let ⟨n, hn⟩ := hid
  ⟨n, h.named hn⟩

/-- What is registered stays. -/
theorem lookup (h : r.Le r') (tidy : r.Tidy) {t : StaticType}
    (hn : r.names.derived.lookup n = some t) : r'.names.derived.lookup n = some t := by
  obtain ⟨id, hid⟩ := tidy.registered hn
  rw [h.derived hid, hn]

/-- A dead name stays dead. -/
theorem dead (h : r.Le r') (hn : r.Dead n) : r'.Dead n := by
  obtain ⟨⟨k, hk, rfl⟩, unused⟩ := hn
  refine ⟨⟨k, Nat.lt_of_lt_of_le hk h.lazyCount, rfl⟩, ?_⟩
  intro id hid
  rcases h.fresh hid with hid | ⟨j, hj, heq⟩
  · exact unused id hid
  · exact absurd (lazyName_inj.mp heq) (by omega)

end Le

/-! ## Operations -/

/-- The registry after a shape was numbered. -/
def withShape (r : Registry) : Registry :=
  { r with shapeCount := r.shapeCount + 1 }

/-- The registry after a lazy schema got the next name. -/
def withName (r : Registry) (id : NodeId) : Registry :=
  { r with
    lazyCount := r.lazyCount + 1
    lazyNames := (id, lazyName r.lazyCount) :: r.lazyNames }

/-- The registry after a lazy schema was asked for its target. -/
def withAsked (r : Registry) (id : NodeId) : Registry :=
  { r with asked := id :: r.asked }

/-- The registry after a type was registered. -/
def withType (r : Registry) (n : String) (t : StaticType) : Registry :=
  { r with names := { r.names with derived := (n, t) :: r.names.derived } }

/-- The registry after the name of a lazy schema was taken back. -/
def without (r : Registry) (id : NodeId) : Registry :=
  { r with lazyNames := r.lazyNames.filter (·.1 != id) }

section

variable (r : Registry) (id : NodeId)

@[simp, grind =] theorem names_withShape : r.withShape.names = r.names := rfl

@[simp, grind =] theorem names_withName : (r.withName id).names = r.names := rfl

@[simp, grind =] theorem names_withAsked : (r.withAsked id).names = r.names := rfl

@[simp, grind =] theorem names_without : (r.without id).names = r.names := rfl

end

@[grind =] theorem withName_named_iff : (r.withName id').Named id n ↔
    (id = id' ∧ n = lazyName r.lazyCount) ∨ (id ≠ id' ∧ r.Named id n) := by
  unfold Named withName
  rw [List.lookup_cons]
  by_cases h : id = id'
  · subst h
    simp [eq_comm]
  · simp [beq_false_of_ne h, h]

theorem withName_self : (r.withName id).Named id (lazyName r.lazyCount) :=
  withName_named_iff.mpr (.inl ⟨rfl, rfl⟩)

theorem lookup_filter_ne (id id' : NodeId) (entries : List (NodeId × String)) :
    (entries.filter (·.1 != id')).lookup id = if id = id' then none else entries.lookup id := by
  induction entries with
  | nil => simp
  | cons e rest ih =>
    obtain ⟨j, n⟩ := e
    by_cases hj : j = id'
    · subst hj
      rw [List.filter_cons_of_neg (by simp), ih]
      by_cases h : id = j
      · simp [h]
      · simp [List.lookup_cons, beq_false_of_ne h]
    · rw [List.filter_cons_of_pos (by simpa using hj), List.lookup_cons, ih, List.lookup_cons]
      by_cases h : id = j
      · subst h
        simp [hj]
      · simp [beq_false_of_ne h]

@[grind =] theorem without_named_iff : (r.without id').Named id n ↔ id ≠ id' ∧ r.Named id n := by
  unfold Named without
  rw [lookup_filter_ne]
  by_cases h : id = id' <;> simp [h]

theorem Tidy.withShape (h : r.Tidy) : r.withShape.Tidy :=
  ⟨h.counted, h.injective, h.registered⟩

theorem Tidy.withAsked (h : r.Tidy) : (r.withAsked id).Tidy :=
  ⟨h.counted, h.injective, h.registered⟩

theorem Tidy.withName (h : r.Tidy) (new : ¬ r.IsNamed id') : (r.withName id').Tidy where
  counted hn := by
    rcases withName_named_iff.mp hn with ⟨_, rfl⟩ | ⟨_, hn⟩
    · exact ⟨r.lazyCount, Nat.lt_succ_self _, rfl⟩
    · obtain ⟨k, hk, rfl⟩ := h.counted hn
      exact ⟨k, Nat.lt_succ_of_lt hk, rfl⟩
  injective hn hn' := by grind
  registered ht := by
    obtain ⟨id, hid⟩ := h.registered ht
    exact ⟨id, by grind⟩

theorem Tidy.withType {t : StaticType} (h : r.Tidy) (hn : r.Named id n) : (r.withType n t).Tidy where
  counted := h.counted
  injective := h.injective
  registered {m} {u} hm := by
    simp only [Registry.withType, List.lookup_cons] at hm
    by_cases hmn : m = n
    · exact ⟨id, hmn ▸ hn⟩
    · rw [beq_false_of_ne hmn] at hm
      exact h.registered hm

theorem Tidy.without (h : r.Tidy) (hn : r.Named id n) (empty : r.names.derived.lookup n = none) :
    (r.without id).Tidy where
  counted hid := h.counted (without_named_iff.mp hid).2
  injective hid hid' := h.injective (without_named_iff.mp hid).2 (without_named_iff.mp hid').2
  registered {m} {u} hm := by
    obtain ⟨j, hj⟩ := h.registered hm
    exact ⟨j, by grind⟩

theorem Le.withShape (r : Registry) : r.Le r.withShape :=
  { Le.refl r with shapeCount := Nat.le_succ _ }

theorem Le.withAsked (r : Registry) (id : NodeId) : r.Le (r.withAsked id) :=
  { Le.refl r with }

theorem Le.withName (new : ¬ r.IsNamed id) : r.Le (r.withName id) where
  named hn := by grind
  fresh hn := by
    rcases withName_named_iff.mp hn with ⟨_, rfl⟩ | ⟨_, hn⟩
    · exact .inr ⟨r.lazyCount, Nat.le_refl _, rfl⟩
    · exact .inl hn
  derived _ := rfl
  declared := rfl
  lazyCount := Nat.le_succ _
  shapeCount := Nat.le_refl _

/-! ## Opening a lazy schema -/

/-- The registry in which the target of a lazy schema is derived. -/
abbrev opening (r : Registry) (id : NodeId) : Registry :=
  (r.withName id).withAsked id

theorem Le.opening (new : ¬ r.IsNamed id) : r.Le (r.opening id) :=
  (Le.withName new).trans (.withAsked _ _)

theorem Tidy.opening (h : r.Tidy) (new : ¬ r.IsNamed id) : (r.opening id).Tidy :=
  (h.withName new).withAsked

theorem opening_named : (r.opening id).Named id (lazyName r.lazyCount) :=
  withName_self

@[grind =] theorem opening_isNamed_iff : (r.opening id').IsNamed id ↔ id = id' ∨ r.IsNamed id := by
  constructor
  · rintro ⟨n, hn⟩
    rcases withName_named_iff.mp hn with ⟨h, _⟩ | ⟨_, hn⟩
    · exact .inl h
    · exact .inr hn.isNamed
  · rintro (rfl | ⟨n, hn⟩)
    · exact opening_named.isNamed
    · by_cases hid : id = id'
      · exact hid ▸ opening_named.isNamed
      · exact (withName_named_iff.mpr (.inr ⟨hid, hn⟩)).isNamed

/-- While the target is derived, nothing is registered under the new name. -/
theorem Le.lookup_opened (h : (r.opening id).Le r') (tidy : r.Tidy) :
    r'.names.derived.lookup (lazyName r.lazyCount) = none := by
  rw [h.derived opening_named]
  exact tidy.lookup_next

@[simp, grind =] theorem withType_lookup_self (t : StaticType) : (r.withType n t).names.derived.lookup n = some t := by
  simp [withType]

theorem withType_lookup_ne {m : String} (t : StaticType) (h : m ≠ n) :
    (r.withType n t).names.derived.lookup m = r.names.derived.lookup m := by
  simp only [withType, List.lookup_cons, beq_false_of_ne h]

/-- The type of the target is registered. -/
theorem Le.closeOk (h : (r.opening id).Le r') (tidy : r.Tidy) (new : ¬ r.IsNamed id)
    (t : StaticType) : r.Le (r'.withType (lazyName r.lazyCount) t) := by
  have le := (Le.opening new).trans h
  refine { le with derived := fun {j m} hm => ?_ }
  rw [withType_lookup_ne t (tidy.ne_next hm)]
  exact le.derived hm

/-- The name is taken back. -/
theorem Le.closeError (h : (r.opening id).Le r') (new : ¬ r.IsNamed id) : r.Le (r'.without id) := by
  have le := (Le.opening new).trans h
  refine { le with named := fun hm => ?_, fresh := fun hm => ?_ }
  · have := le.named hm
    grind
  · exact le.fresh (without_named_iff.mp hm).2

theorem Tidy.closeOk (h : r'.Tidy) (le : (r.opening id).Le r') (t : StaticType) :
    (r'.withType (lazyName r.lazyCount) t).Tidy :=
  h.withType (le.named opening_named)

theorem Tidy.closeError (h : r'.Tidy) (le : (r.opening id).Le r') (tidy : r.Tidy) :
    (r'.without id).Tidy :=
  h.without (le.named opening_named) (le.lookup_opened tidy)

/-- A name that is taken back is dead. -/
theorem Tidy.dead_without (h : r.Tidy) (hn : r.Named id n) : (r.without id).Dead n := by
  refine ⟨h.counted hn, ?_⟩
  intro j hj
  grind

theorem Dead.without (h : r.Dead n) (id : NodeId) : (r.without id).Dead n :=
  ⟨h.1, fun j hj => h.2 j (without_named_iff.mp hj).2⟩

end Registry

end Schemata
