import Schemata.Proofs.Derivation.Success
import Schemata.Proofs.Mirror.Alike

/-!
# Derivations side by side

Two registries that started from different bases. The first base knows more lazy schemas than the
second one, but only such as can be derived from the second base too. Then every derivation ends in
the same way from both: with types that are alike or with the same failure, and the registries stay
side by side.
-/

namespace Schemata

namespace Registry

/-- Names that correspond in two registries: those of one lazy schema, and those that are dead. -/
def Paired (r₁ r₂ : Registry) (n m : String) : Prop :=
  (∃ id, r₁.Named id n ∧ r₂.Named id m) ∨ (r₁.Dead n ∧ r₂.Dead m)

theorem Paired.mono {r₁ r₂ r₁' r₂' : Registry} (le₁ : r₁.Le r₁') (le₂ : r₂.Le r₂') {n m : String}
    (h : Paired r₁ r₂ n m) : Paired r₁' r₂' n m := by
  rcases h with ⟨id, hn, hm⟩ | ⟨hn, hm⟩
  · exact .inl ⟨id, le₁.named hn, le₂.named hm⟩
  · exact .inr ⟨le₁.dead hn, le₂.dead hm⟩

end Registry

namespace Scope

open Registry

variable {scope : Scope} {b₁ b₂ r₁ r₂ r₁' r₂' : Registry}

/-- What the first base knows in addition can be derived from the second base, and is complete. -/
structure Ahead (scope : Scope) (b₁ b₂ : Registry) : Prop where
  tidy : b₁.Tidy
  grounded {id : NodeId} : b₁.IsNamed id → ¬ b₂.IsNamed id → scope.Grounded b₂.IsNamed (.lazy id)
  entries {id : NodeId} {n : String} : b₁.Named id n → ¬ b₂.IsNamed id →
    ∃ o s t, scope.target id = .ok s ∧ b₁.names.derived.lookup n = some t
      ∧ DescribesDerived o b₁.Named s t

/-- Two registries that have grown from their bases side by side. -/
structure Twins (b₁ b₂ r₁ r₂ : Registry) : Prop where
  le₁ : b₁.Le r₁
  le₂ : b₂.Le r₂
  tidy₁ : r₁.Tidy
  tidy₂ : r₂.Tidy
  named {id : NodeId} : r₂.IsNamed id → r₁.IsNamed id
  extra {id : NodeId} : r₁.IsNamed id → ¬ r₂.IsNamed id → b₁.IsNamed id
  entries {id : NodeId} {n m : String} : r₁.Named id n → r₂.Named id m →
    Option.Rel (Alike (Paired r₁ r₂)) (r₁.names.derived.lookup n) (r₂.names.derived.lookup m)

theorem rel_mono {ρ ρ' : String → String → Prop} (hρ : ∀ n m, ρ n m → ρ' n m)
    {x y : Option StaticType} (h : Option.Rel (Alike ρ) x y) : Option.Rel (Alike ρ') x y := by
  cases h with
  | none => exact .none
  | some h => exact .some (h.mono hρ)

namespace Twins

theorem corresponds (h : Twins b₁ b₂ r₁ r₂) : Corresponds (Paired r₁ r₂) r₁.names r₂.names where
  entries {n m} hnm := by
    rcases hnm with ⟨id, hn, hm⟩ | ⟨hn, hm⟩
    · exact h.entries hn hm
    · rw [hn.lookup h.tidy₁, hm.lookup h.tidy₂]
      exact .none
  left {n m m' t} hnm hnm' ht := by
    obtain ⟨j, hj⟩ := h.tidy₁.registered ht
    rcases hnm with ⟨id, hn, hm⟩ | ⟨hn, _⟩
    · rcases hnm' with ⟨id', hn', hm'⟩ | ⟨hn', _⟩
      · obtain rfl := h.tidy₁.injective hn hn'
        exact hm.det hm'
      · exact absurd hj (hn'.2 j)
    · exact absurd hj (hn.2 j)
  right {n n' m t} hnm hnm' ht := by
    obtain ⟨j, hj⟩ := h.tidy₂.registered ht
    rcases hnm with ⟨id, hn, hm⟩ | ⟨_, hm⟩
    · rcases hnm' with ⟨id', hn', hm'⟩ | ⟨_, hm'⟩
      · obtain rfl := h.tidy₂.injective hm hm'
        exact hn.det hn'
      · exact absurd hj (hm'.2 j)
    · exact absurd hj (hm.2 j)

/-! ## Steps of both -/

theorem withShape (h : Twins b₁ b₂ r₁ r₂) : Twins b₁ b₂ r₁.withShape r₂.withShape where
  le₁ := h.le₁.trans (.withShape r₁)
  le₂ := h.le₂.trans (.withShape r₂)
  tidy₁ := h.tidy₁.withShape
  tidy₂ := h.tidy₂.withShape
  named := h.named
  extra := h.extra
  entries := h.entries

variable {id : NodeId}

theorem opening (h : Twins b₁ b₂ r₁ r₂) (new₁ : ¬ r₁.IsNamed id) (new₂ : ¬ r₂.IsNamed id) :
    Twins b₁ b₂ (r₁.opening id) (r₂.opening id) where
  le₁ := h.le₁.trans (.opening new₁)
  le₂ := h.le₂.trans (.opening new₂)
  tidy₁ := h.tidy₁.opening new₁
  tidy₂ := h.tidy₂.opening new₂
  named {j} hj := by
    rw [opening_isNamed_iff] at hj ⊢
    exact hj.imp_right h.named
  extra {j} hj hj' := by
    rw [opening_isNamed_iff] at hj hj'
    rw [not_or] at hj'
    exact h.extra (hj.resolve_left hj'.1) hj'.2
  entries {j n m} hn hm := by
    -- The new name has no entry on either side yet. An older one has what it had before.
    rcases withName_named_iff.mp hn with ⟨rfl, rfl⟩ | ⟨hne, hn⟩
    · rcases withName_named_iff.mp hm with ⟨_, rfl⟩ | ⟨hne, _⟩
      · change Option.Rel _ (r₁.names.derived.lookup _) (r₂.names.derived.lookup _)
        rw [h.tidy₁.lookup_next, h.tidy₂.lookup_next]
        exact .none
      · exact absurd rfl hne
    · rcases withName_named_iff.mp hm with ⟨heq, _⟩ | ⟨_, hm⟩
      · exact absurd heq hne
      · exact rel_mono (fun _ _ => Paired.mono (.opening new₁) (.opening new₂)) (h.entries hn hm)

theorem closeOk (start : Twins b₁ b₂ r₁ r₂) (new₁ : ¬ r₁.IsNamed id) (new₂ : ¬ r₂.IsNamed id)
    (h : Twins b₁ b₂ r₁' r₂') (le₁ : (r₁.opening id).Le r₁') (le₂ : (r₂.opening id).Le r₂')
    {t u : StaticType} (htu : Alike (Paired r₁' r₂') t u) :
    Twins b₁ b₂ (r₁'.withType (lazyName r₁.lazyCount) t)
      (r₂'.withType (lazyName r₂.lazyCount) u) where
  le₁ := start.le₁.trans (le₁.closeOk start.tidy₁ new₁ t)
  le₂ := start.le₂.trans (le₂.closeOk start.tidy₂ new₂ u)
  tidy₁ := h.tidy₁.closeOk le₁ t
  tidy₂ := h.tidy₂.closeOk le₂ u
  named := h.named
  extra := h.extra
  entries {j n m} hn hm := by
    have hid₁ := le₁.named opening_named
    have hid₂ := le₂.named opening_named
    -- Only the entry of `id` is new, and the names of different lazy schemas are different.
    by_cases hj : j = id
    · subst hj
      obtain rfl := hid₁.det hn
      obtain rfl := hid₂.det hm
      rw [withType_lookup_self, withType_lookup_self]
      exact .some htu
    · rw [withType_lookup_ne t, withType_lookup_ne u]
      · exact h.entries hn hm
      · rintro rfl
        exact hj (h.tidy₂.injective hm hid₂)
      · rintro rfl
        exact hj (h.tidy₁.injective hn hid₁)

theorem closeError (start : Twins b₁ b₂ r₁ r₂) (new₁ : ¬ r₁.IsNamed id) (new₂ : ¬ r₂.IsNamed id)
    (h : Twins b₁ b₂ r₁' r₂') (le₁ : (r₁.opening id).Le r₁') (le₂ : (r₂.opening id).Le r₂') :
    Twins b₁ b₂ (r₁'.without id) (r₂'.without id) where
  le₁ := start.le₁.trans (le₁.closeError new₁)
  le₂ := start.le₂.trans (le₂.closeError new₂)
  tidy₁ := h.tidy₁.closeError le₁ start.tidy₁
  tidy₂ := h.tidy₂.closeError le₂ start.tidy₂
  named {j} := by
    rintro ⟨m, hm⟩
    obtain ⟨hne, hm⟩ := without_named_iff.mp hm
    obtain ⟨n, hn⟩ := h.named ⟨m, hm⟩
    exact ⟨n, without_named_iff.mpr ⟨hne, hn⟩⟩
  extra {j} := by
    rintro ⟨n, hn⟩ new
    obtain ⟨hne, hn⟩ := without_named_iff.mp hn
    refine h.extra ⟨n, hn⟩ ?_
    rintro ⟨m, hm⟩
    exact new ⟨m, without_named_iff.mpr ⟨hne, hm⟩⟩
  entries {j n m} hn hm := by
    refine rel_mono ?_ (h.entries (without_named_iff.mp hn).2 (without_named_iff.mp hm).2)
    -- References to the name that is taken back are dead on both sides from now on.
    rintro a b (⟨k, ha, hb⟩ | ⟨ha, hb⟩)
    · by_cases hk : k = id
      · subst hk
        exact .inr ⟨h.tidy₁.dead_without ha, h.tidy₂.dead_without hb⟩
      · exact .inl ⟨k, without_named_iff.mpr ⟨hk, ha⟩, without_named_iff.mpr ⟨hk, hb⟩⟩
    · exact .inr ⟨ha.without id, hb.without id⟩

/-! ## Catching up -/

/-- What the first base knows in addition leads, behind lazy schemas that the second registry has no
name for, to nothing that the first base does not know. -/
theorem described_of_reaches (ahead : scope.Ahead b₁ b₂) (h : Twins b₁ b₂ r₁ r₂) {s t : Schema}
    (hs : ∃ o u, DescribesDerived o b₁.Named s u) (hreach : scope.Reaches r₂.IsNamed s t) :
    ∃ o u, DescribesDerived o b₁.Named t u := by
  induction hreach with
  | refl => exact hs
  | @tail t v _ hlead ih =>
    obtain ⟨o, u, hu⟩ := ih
    cases hlead with
    | child hmem =>
      obtain ⟨u', hu'⟩ := hu.child hmem
      exact ⟨o, u', hu'⟩
    | @target k v new htarget =>
      obtain ⟨n, rfl, hn⟩ := hu.lazy
      have new' : ¬ b₂.IsNamed k := fun hk => new (h.le₂.isNamed hk)
      obtain ⟨o', v', u', htarget', _, hu'⟩ := ahead.entries hn new'
      obtain rfl := Except.ok.inj (htarget.symm.trans htarget')
      exact ⟨o', u', hu'⟩

/-- The second registry derives what only the first one knows. -/
theorem catchUp (ahead : scope.Ahead b₁ b₂) (h : Twins b₁ b₂ r₁ r₂) (hid : r₁.IsNamed id)
    (new : ¬ r₂.IsNamed id) {depth : Nat} (enough : scope.pending r₂ < depth) :
    ∃ m r₂', (scope.typeOf depth (.lazy id)).exec r₂ = (.ok (.schema .lazy (some [.reference m])), r₂')
      ∧ r₂'.Named id m ∧ r₂.Le r₂' ∧ Twins b₁ b₂ r₁ r₂' := by
  have known := h.extra hid new
  have new' : ¬ b₂.IsNamed id := fun hb => new (h.le₂.isNamed hb)
  -- The second registry has to derive what the first one has. It can, because what the first base
  -- knows was derived once, and it finds nothing but what the first base knows too.
  have ground := (ahead.grounded known new').mono fun _ => h.le₂.isNamed
  have start : Ready r₂ fun _ => none := ⟨h.tidy₂, nofun⟩
  have run := scope.typeOf_run depth (.lazy id) r₂ _ start enough
  generalize (scope.typeOf depth (.lazy id)).exec r₂ = x at run
  cases run with
  | error _ hj hnew hfails =>
    obtain ⟨s, hs⟩ := ground _ hj hnew
    exact absurd (hs.symm.trans hfails) (by simp)
  | @ok t r₂' o' grows found ht =>
    obtain ⟨m, rfl, hm⟩ := ht.lazy
    refine ⟨m, r₂', rfl, hm, grows.le, ?_⟩
    have named {j : NodeId} (hj : r₂'.IsNamed j) (hnew : ¬ r₂.IsNamed j) : b₁.IsNamed j := by
      have hreach := (found j hj).resolve_left hnew
      obtain ⟨n, hn⟩ := known
      obtain ⟨_, _, hdescribed⟩ := h.described_of_reaches ahead
        ⟨fun _ => none, _, .reference hn⟩ hreach
      obtain ⟨k, _, hk⟩ := hdescribed.lazy
      exact ⟨k, hk⟩
    refine ⟨h.le₁, h.le₂.trans grows.le, h.tidy₁, grows.tidy, ?_, ?_, ?_⟩
    · intro j hj
      by_cases hold : r₂.IsNamed j
      · exact h.named hold
      · exact h.le₁.isNamed (named hj hold)
    · exact fun hj hnew => h.extra hj fun hold => hnew (grows.le.isNamed hold)
    · intro j n k hn hk
      have mono : ∀ a b, Paired r₁ r₂ a b → Paired r₁ r₂' a b :=
        fun _ _ => Paired.mono (.refl r₁) grows.le
      -- A pair of old entries is as alike as before. A new one is derived from the target that the
      -- entry of the first base describes.
      by_cases hold : r₂.IsNamed j
      · obtain ⟨k', hk'⟩ := hold
        obtain rfl := (grows.le.named hk').det hk
        rw [grows.le.derived hk']
        exact rel_mono mono (h.entries hn hk')
      · obtain ⟨n', hn'⟩ := named ⟨k, hk⟩ hold
        obtain rfl := (h.le₁.named hn').det hn
        obtain ⟨o₁, s, t, htarget, hlookup, ht⟩ :=
          ahead.entries hn' fun hb => hold (h.le₂.isNamed hb)
        obtain ⟨s', u, htarget', hlookup', hu⟩ := grows.entries hk hold
        obtain rfl := Except.ok.inj (htarget.symm.trans htarget')
        rw [h.le₁.lookup ahead.tidy hlookup, hlookup']
        have pairs (i : NodeId) (a b : String) (ha : b₁.Named i a) (hb : r₂'.Named i b) :
            Paired r₁ r₂' a b := .inl ⟨i, h.le₁.named ha, hb⟩
        exact .some (ht.alike pairs pairs hu)

end Twins

/-! ## Lockstep -/

variable {α β : Type}

/-- Two derivations that end in the same way, side by side. -/
inductive Lockstep (b₁ b₂ r₁ r₂ : Registry) (result : Registry → Registry → α → α → Prop) :
    Except Failure α × Registry → Except Failure α × Registry → Prop
  | ok {a b : α} {r₁' r₂' : Registry} :
    Twins b₁ b₂ r₁' r₂' → r₁.Le r₁' → r₂.Le r₂' → result r₁' r₂' a b →
    Lockstep b₁ b₂ r₁ r₂ result (.ok a, r₁') (.ok b, r₂')
  | error {failure : Failure} {r₁' r₂' : Registry} :
    Twins b₁ b₂ r₁' r₂' → r₁.Le r₁' → r₂.Le r₂' →
    Lockstep b₁ b₂ r₁ r₂ result (.error failure, r₁') (.error failure, r₂')

namespace Lockstep

variable {result : Registry → Registry → α → α → Prop}

theorem pure {a b : α} (h : Twins b₁ b₂ r₁ r₂) (hab : result r₁ r₂ a b) :
    Lockstep b₁ b₂ r₁ r₂ result (.ok a, r₁) (.ok b, r₂) :=
  .ok h (.refl r₁) (.refl r₂) hab

theorem bind {m₁ m₂ : Deriving α} {f₁ f₂ : α → Deriving β}
    {result' : Registry → Registry → β → β → Prop}
    (h : Lockstep b₁ b₂ r₁ r₂ result (m₁.exec r₁) (m₂.exec r₂))
    (next : ∀ r₁' r₂' a b, Twins b₁ b₂ r₁' r₂' → r₁.Le r₁' → r₂.Le r₂' → result r₁' r₂' a b →
      Lockstep b₁ b₂ r₁' r₂' result' ((f₁ a).exec r₁') ((f₂ b).exec r₂')) :
    Lockstep b₁ b₂ r₁ r₂ result' ((m₁ >>= f₁).exec r₁) ((m₂ >>= f₂).exec r₂) := by
  generalize hx : m₁.exec r₁ = x at h
  generalize hy : m₂.exec r₂ = y at h
  cases h with
  | error twins le₁ le₂ =>
    rw [Stateful.exec_bind_error hx, Stateful.exec_bind_error hy]
    exact .error twins le₁ le₂
  | @ok a b r₁' r₂' twins le₁ le₂ hab =>
    rw [Stateful.exec_bind_ok hx, Stateful.exec_bind_ok hy]
    have after := next r₁' r₂' a b twins le₁ le₂ hab
    generalize (f₁ a).exec r₁' = x' at after ⊢
    generalize (f₂ b).exec r₂' = y' at after ⊢
    cases after with
    | ok twins' le₁' le₂' hb => exact .ok twins' (le₁.trans le₁') (le₂.trans le₂') hb
    | error twins' le₁' le₂' => exact .error twins' (le₁.trans le₁') (le₂.trans le₂')

end Lockstep

/-- Deriving the types of children in order, if each of them is derived in lockstep. -/
theorem typesOf_lockstep {depth : Nat} {ss : List Schema}
    (each : ∀ s ∈ ss, ∀ r₁ r₂, Twins b₁ b₂ r₁ r₂ → scope.pending r₁ < depth →
      scope.pending r₂ < depth →
      Lockstep b₁ b₂ r₁ r₂ (fun r₁' r₂' => Alike (Paired r₁' r₂'))
        ((scope.typeOf depth s).exec r₁) ((scope.typeOf depth s).exec r₂))
    (h : Twins b₁ b₂ r₁ r₂) (enough₁ : scope.pending r₁ < depth)
    (enough₂ : scope.pending r₂ < depth) :
    Lockstep b₁ b₂ r₁ r₂ (fun r₁' r₂' ts us => ts.length = ss.length ∧ AlikeAll (Paired r₁' r₂') ts us)
      ((scope.typesOf depth ss).exec r₁) ((scope.typesOf depth ss).exec r₂) := by
  induction ss generalizing r₁ r₂ with
  | nil =>
    rw [typesOf]
    exact .pure h ⟨rfl, .nil⟩
  | cons s ss ih =>
    rw [typesOf]
    refine (each s List.mem_cons_self r₁ r₂ h enough₁ enough₂).bind ?_
    intro r₁' r₂' t u twins le₁ le₂ htu
    have rest := ih (fun s hs => each s (List.mem_cons_of_mem _ hs)) twins
      (Nat.lt_of_le_of_lt (scope.pending_le le₁) enough₁)
      (Nat.lt_of_le_of_lt (scope.pending_le le₂) enough₂)
    refine rest.bind ?_
    rintro r₁'' r₂'' ts us twins' le₁' le₂' ⟨hlength, hall⟩
    refine .pure twins' ⟨congrArg Nat.succ hlength, .cons ?_ hall⟩
    exact htu.mono fun _ _ => Paired.mono le₁' le₂'

/-- Every derivation ends in the same way from registries that stand side by side. -/
theorem typeOf_lockstep (ahead : scope.Ahead b₁ b₂) (depth : Nat) (s : Schema) (r₁ r₂ : Registry)
    (h : Twins b₁ b₂ r₁ r₂) (enough₁ : scope.pending r₁ < depth)
    (enough₂ : scope.pending r₂ < depth) :
    Lockstep b₁ b₂ r₁ r₂ (fun r₁' r₂' => Alike (Paired r₁' r₂'))
      ((scope.typeOf depth s).exec r₁) ((scope.typeOf depth s).exec r₂) := by
  have children (s' : Schema) (hs' : s' ∈ s.children) (r₁ r₂ : Registry)
      (h : Twins b₁ b₂ r₁ r₂) (enough₁ : scope.pending r₁ < depth)
      (enough₂ : scope.pending r₂ < depth) :=
    typeOf_lockstep ahead depth s' r₁ r₂ h enough₁ enough₂
  cases hs : s.isComposite with
  | true =>
    rw [scope.typeOf_composite hs]
    refine (typesOf_lockstep children h enough₁ enough₂).bind ?_
    rintro r₁' r₂' ts us twins _ _ ⟨_, hall⟩
    exact .pure twins (.composite (Schema.schemaClass_ne_object hs) hall)
  | false =>
    cases s with
    | array | record | tuple | union | wrapper | pipe => cases hs
    | leaf id l =>
      rw [scope.typeOf_leaf]
      exact .pure h (.leaf ⟨l, rfl⟩)
    | object id shape =>
      -- The shapes may get different numbers. Types that are alike do not show them.
      rw [scope.typeOf_object]
      have numbered : Lockstep b₁ b₂ r₁ r₂ (fun _ _ _ _ => True) (takeShape.exec r₁)
          (takeShape.exec r₂) := by
        rw [exec_takeShape, exec_takeShape]
        exact .ok h.withShape (.withShape r₁) (.withShape r₂) trivial
      refine numbered.bind ?_
      intro r₁' r₂' k k' twins le₁ le₂ _
      have enough₁' := Nat.lt_of_le_of_lt (scope.pending_le le₁) enough₁
      have enough₂' := Nat.lt_of_le_of_lt (scope.pending_le le₂) enough₂
      refine (typesOf_lockstep children twins enough₁' enough₂').bind ?_
      rintro r₁'' r₂'' ts us twins' _ _ ⟨hlength, hall⟩
      have hts : ts.length = shape.length := by simpa [Schema.children] using hlength
      have hus : us.length = shape.length := hall.forall₂.length_eq.symm.trans hts
      refine .pure twins' (.object ?_ ?_)
      · rw [List.map_fst_zip (by simp [hts]), List.map_fst_zip (by simp [hus])]
      · rw [List.map_snd_zip (by simp [hts]), List.map_snd_zip (by simp [hus])]
        exact hall
    | lazy id =>
      -- What the second registry names, the first one names too. So either both have a name, or the
      -- second one has to catch up, or both open the lazy schema.
      by_cases hid₂ : r₂.IsNamed id
      · obtain ⟨m, hm⟩ := hid₂
        obtain ⟨n, hn⟩ := h.named ⟨m, hm⟩
        rw [scope.exec_typeOf_named hn, scope.exec_typeOf_named hm]
        exact .pure h (.reference (.inl ⟨id, hn, hm⟩))
      · by_cases hid₁ : r₁.IsNamed id
        · obtain ⟨n, hn⟩ := hid₁
          obtain ⟨m, r₂', hexec, hm, le₂, twins⟩ := h.catchUp ahead ⟨n, hn⟩ hid₂ enough₂
          rw [scope.exec_typeOf_named hn, hexec]
          exact .ok twins (.refl r₁) le₂ (.reference (.inl ⟨id, hn, hm⟩))
        · obtain ⟨depth, rfl⟩ := Nat.exists_eq_succ_of_ne_zero (Nat.ne_zero_of_lt enough₁)
          rw [scope.exec_typeOf_unnamed hid₁, scope.exec_typeOf_unnamed hid₂]
          have opened := h.opening hid₁ hid₂
          cases htarget : scope.target id with
          | error failure =>
            have le₁ : (r₁.opening id).Le (r₁.opening id) := .refl _
            have le₂ : (r₂.opening id).Le (r₂.opening id) := .refl _
            exact .error (h.closeError hid₁ hid₂ opened le₁ le₂) (le₁.closeError hid₁)
              (le₂.closeError hid₂)
          | ok s =>
            have fewer₁ := scope.pending_lt (.opening hid₁) hid₁ ⟨_, opening_named⟩ htarget
            have fewer₂ := scope.pending_lt (.opening hid₂) hid₂ ⟨_, opening_named⟩ htarget
            have behind := typeOf_lockstep ahead depth s _ _ opened (by omega) (by omega)
            simp only
            generalize (scope.typeOf depth s).exec (r₁.opening id) = x at behind
            generalize (scope.typeOf depth s).exec (r₂.opening id) = y at behind
            cases behind with
            | ok twins le₁ le₂ htu =>
              refine .ok (h.closeOk hid₁ hid₂ twins le₁ le₂ htu) (le₁.closeOk h.tidy₁ hid₁ _)
                (le₂.closeOk h.tidy₂ hid₂ _) (.reference (.inl ⟨id, ?_, ?_⟩))
              · exact le₁.named opening_named
              · exact le₂.named opening_named
            | error twins le₁ le₂ =>
              exact .error (h.closeError hid₁ hid₂ twins le₁ le₂) (le₁.closeError hid₁)
                (le₂.closeError hid₂)
termination_by (depth, sizeOf s)
decreasing_by
  · exact .right _ (Schema.sizeOf_lt_of_mem_children hs')
  · exact .left _ _ (by omega)

end Scope

end Schemata
