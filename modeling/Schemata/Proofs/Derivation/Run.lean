import Mathlib.Data.List.Count
import Schemata.Proofs.Derivation.Equations
import Schemata.Proofs.Mirror.Describes

/-!
# What a derivation does

The type that is derived from a schema describes it, and so do the types that are registered on the
way describe the targets of the lazy schemas that were named. A derivation fails only because of a
lazy schema without a target, which a search from the schema finds behind lazy schemas that had no
names before. What was registered until then stays, and may refer to names that were taken back; such
a name belonged to a lazy schema that cannot be derived.
-/

namespace Schemata

/-- The properties of the objects that shapes were numbered for. -/
abbrev Owners := Nat → Option (List (String × Schema))

/-- The reading of derived types: leaves have the types that are derived for them, a shape stands for
the object that it was numbered for and is named after its number, and names are read in the same way
everywhere. -/
def Reading.derived (owners : Owners) (refers : NodeId → String → Prop)
    (opens : NodeId → Schema → Prop) : Reading where
  leaf l t := t = l.staticType
  shape sid name shape := ∃ k, sid = .derived k ∧ name = Registry.shapeName k ∧ owners k = some shape
  refers _ := refers
  opens := opens

/-- A type as it is derived, with references in it that `refers` explains. -/
abbrev DescribesDerived (owners : Owners) (refers : NodeId → String → Prop) :
    Schema → StaticType → Prop :=
  Describes (.derived owners refers fun _ _ => False) refers

section

variable {owners owners' : Owners} {refers refers' : NodeId → String → Prop}
  {opens opens' : NodeId → Schema → Prop}

theorem Reading.derived_le (howners : ∀ k shape, owners k = some shape → owners' k = some shape)
    (hrefers : ∀ id n, refers id n → refers' id n) (hopens : ∀ id s, opens id s → opens' id s) :
    (Reading.derived owners refers opens).Le (.derived owners' refers' opens') where
  leaf h := h
  shape := by
    rintro sid name shape ⟨k, rfl, rfl, hk⟩
    exact ⟨k, rfl, rfl, howners k shape hk⟩
  refers h := hrefers _ _ h
  opens h := hopens _ _ h

/-- The children of a schema that is described are described. -/
theorem DescribesDerived.child {s c : Schema} {t : StaticType}
    (h : DescribesDerived owners refers s t) (hc : c ∈ s.children) :
    ∃ u, DescribesDerived owners refers c u := by
  have among {ss : List Schema} {ts : List StaticType} (hc : c ∈ ss)
      (hall : DescribesAll (.derived owners refers fun _ _ => False) refers ss ts) :
      ∃ u, DescribesDerived owners refers c u := by
    obtain ⟨u, _, hu⟩ := exists_right_of_forall₂ hall.forall₂ hc
    exact ⟨u, hu⟩
  cases h with
  | leaf => cases hc
  | object _ _ hfields => exact among hc hfields
  | composite _ hts => exact among hc hts
  | reference => cases hc
  | target hopens => exact hopens.elim

/-- A lazy schema is described by a reference. -/
theorem DescribesDerived.lazy {id : NodeId} {t : StaticType}
    (h : DescribesDerived owners refers (.lazy id) t) :
    ∃ n, t = .schema .lazy (some [.reference n]) ∧ refers id n := by
  cases h with
  | composite hs => cases hs
  | reference hn => exact ⟨_, rfl, hn⟩
  | target hopens => exact hopens.elim

theorem DescribesDerived.mono
    (howners : ∀ k shape, owners k = some shape → owners' k = some shape)
    (hrefers : ∀ id n, refers id n → refers' id n) {s : Schema} {t : StaticType}
    (h : DescribesDerived owners refers s t) : DescribesDerived owners' refers' s t :=
  Describes.mono (Reading.derived_le howners hrefers fun _ _ h => h) hrefers h

end

namespace Scope

variable (scope : Scope) {α β : Type} {r r' r'' : Registry} {o o' o'' : Owners}

/-- What a reference may stand for after a derivation from `r` has failed: a name that is in use, or
one that was taken back from a lazy schema that cannot be derived. -/
def LeftBehind (r r' : Registry) (id : NodeId) (n : String) : Prop :=
  r'.Named id n ∨ (r'.Dead n ∧ ¬ scope.Grounded r.IsNamed (.lazy id))

/-- How derivation changes a registry and the owners of shapes. The types registered for lazy schemas
that were named describe their targets; `refers` explains the references in them. -/
structure Grows (r r' : Registry) (o o' : Owners) (refers : NodeId → String → Prop) : Prop where
  le : r.Le r'
  tidy : r'.Tidy
  owners {k : Nat} {shape : List (String × Schema)} : o k = some shape → o' k = some shape
  numbered {k : Nat} {shape : List (String × Schema)} : o' k = some shape → k < r'.shapeCount
  entries {id : NodeId} {n : String} : r'.Named id n → ¬ r.IsNamed id →
    ∃ s t, scope.target id = .ok s ∧ r'.names.derived.lookup n = some t
      ∧ DescribesDerived o' refers s t

/-- What holds of a registry before a derivation. -/
structure Ready (r : Registry) (o : Owners) : Prop where
  tidy : r.Tidy
  numbered {k : Nat} {shape : List (String × Schema)} : o k = some shape → k < r.shapeCount

namespace Grows

variable {scope} {refers : NodeId → String → Prop}

theorem refl (h : Ready r o) : scope.Grows r r o o refers where
  le := .refl r
  tidy := h.tidy
  owners hk := hk
  numbered := h.numbered
  entries hn new := absurd ⟨_, hn⟩ new

theorem ready (h : scope.Grows r r' o o' refers) : Ready r' o' :=
  ⟨h.tidy, h.numbered⟩

/-- A derivation that has succeeded, and another one after it. -/
theorem trans {refers' : NodeId → String → Prop} (h : scope.Grows r r' o o' r'.Named)
    (h' : scope.Grows r' r'' o' o'' refers) (named : ∀ id n, r'.Named id n → refers' id n)
    (sub : ∀ id n, refers id n → refers' id n) : scope.Grows r r'' o o'' refers' where
  le := h.le.trans h'.le
  tidy := h'.tidy
  owners hk := h'.owners (h.owners hk)
  numbered := h'.numbered
  entries {id} {n} hn new := by
    by_cases hid : r'.IsNamed id
    · obtain ⟨m, hm⟩ := hid
      obtain rfl := (h'.le.named hm).det hn
      obtain ⟨s, t, htarget, hlookup, ht⟩ := h.entries hm new
      refine ⟨s, t, htarget, h'.le.lookup h.tidy hlookup, ?_⟩
      exact ht.mono (fun _ _ => h'.owners) named
    · obtain ⟨s, t, htarget, hlookup, ht⟩ := h'.entries hn hid
      exact ⟨s, t, htarget, hlookup, ht.mono (fun _ _ hk => hk) sub⟩

end Grows

/-- How a derivation from `r` ends. If it succeeds, it has named lazy schemas that it `seeks`, and
`result` holds of what it gives; if it fails, it has found one of them that has no target. -/
inductive Run (r : Registry) (o : Owners) (result : Owners → Registry → α → Prop)
    (seeks : NodeId → Prop) : Except Failure α × Registry → Prop
  | ok {a : α} {r' : Registry} {o' : Owners} :
    scope.Grows r r' o o' r'.Named → (∀ id, r'.IsNamed id → r.IsNamed id ∨ seeks id) →
    result o' r' a → Run r o result seeks (.ok a, r')
  | error {failure : Failure} {r' : Registry} {o' : Owners} {id : NodeId} :
    scope.Grows r r' o o' (scope.LeftBehind r r') → seeks id → ¬ r.IsNamed id →
    scope.target id = .error failure → Run r o result seeks (.error failure, r')

namespace Run

variable {scope} {result result' : Owners → Registry → α → Prop} {seeks seeks' : NodeId → Prop}

/-- Nothing happens. -/
theorem pure {a : α} (start : Ready r o) (ha : result o r a) :
    scope.Run r o result seeks (.ok a, r) :=
  .ok (.refl start) (fun _ => .inl) ha

theorem imp {x : Except Failure α × Registry} (h : scope.Run r o result seeks x)
    (hresult : ∀ o' r' a, scope.Grows r r' o o' r'.Named → result o' r' a → result' o' r' a)
    (hseeks : ∀ id, seeks id → seeks' id) : scope.Run r o result' seeks' x := by
  cases h with
  | ok grows found ha =>
    exact .ok grows (fun id hid => (found id hid).imp_right (hseeks id)) (hresult _ _ _ grows ha)
  | error grows hid new htarget => exact .error grows (hseeks _ hid) new htarget

/-- One derivation after another. -/
theorem bind {m : Deriving α} {f : α → Deriving β} {result' : Owners → Registry → β → Prop}
    (h : scope.Run r o result seeks (m.exec r))
    (next : ∀ o' r' a, scope.Grows r r' o o' r'.Named → result o' r' a →
      scope.Run r' o' result' seeks ((f a).exec r')) :
    scope.Run r o result' seeks ((m >>= f).exec r) := by
  generalize hx : m.exec r = x at h
  cases h with
  | error grows hid new htarget =>
    rw [Stateful.exec_bind_error hx]
    exact .error grows hid new htarget
  | @ok a r' o' grows found ha =>
    rw [Stateful.exec_bind_ok hx]
    have after := next o' r' a grows ha
    generalize (f a).exec r' = y at after ⊢
    cases after with
    | ok grows' found' hb =>
      refine .ok (grows.trans grows' (fun _ _ => grows'.le.named) fun _ _ hn => hn) ?_ hb
      intro id hid
      rcases found' id hid with hid | hid
      · exact found id hid
      · exact .inr hid
    | @error failure r'' o'' id grows' hid new htarget =>
      have left (id : NodeId) (n : String) :
          scope.LeftBehind r' r'' id n → scope.LeftBehind r r'' id n := by
        rintro (hn | ⟨dead, stuck⟩)
        · exact .inl hn
        · exact .inr ⟨dead, fun ground => stuck (ground.mono fun _ => grows.le.isNamed)⟩
      have grown := grows.trans grows' (fun _ _ hn => .inl (grows'.le.named hn)) left
      exact .error grown hid (fun named => new (grows.le.isNamed named)) htarget

end Run

/-! ## Depth -/

/-- How many lazy schemas could be opened yet. -/
def pending (r : Registry) : Nat :=
  scope.getters.countP fun entry => (r.lazyNames.lookup entry.1).isNone

theorem pending_le (h : r.Le r') : scope.pending r' ≤ scope.pending r := by
  apply List.countP_mono_left
  intro entry _ unnamed
  rw [Option.isNone_iff_eq_none, ← Registry.not_isNamed_iff] at unnamed ⊢
  exact fun named => unnamed (h.isNamed named)

/-- Naming a lazy schema that has a target leaves fewer to open. -/
theorem pending_lt {id : NodeId} {s : Schema} (h : r.Le r') (new : ¬ r.IsNamed id)
    (named : r'.IsNamed id) (htarget : scope.target id = .ok s) :
    scope.pending r' < scope.pending r := by
  obtain ⟨getter, hgetter⟩ : ∃ getter, (id, getter) ∈ scope.getters := by
    unfold target at htarget
    split at htarget
    · cases htarget
    next getter hgetter =>
      exact ⟨getter, mem_of_lookup hgetter⟩
  let unnamed (r : Registry) (entry : NodeId × Getter) : Bool :=
    (r.lazyNames.lookup entry.1).isNone
  have closes : ∀ entry, unnamed r' entry = true → unnamed r entry = true := by
    intro entry hentry
    simp only [unnamed, Option.isNone_iff_eq_none, ← Registry.not_isNamed_iff] at hentry ⊢
    exact fun hnamed => hentry (h.isNamed hnamed)
  -- All that is unnamed later is unnamed now, and `id` is unnamed now only.
  calc scope.pending r'
    _ = (scope.getters.filter (unnamed r)).countP (unnamed r') := by
      rw [List.countP_filter]
      apply List.countP_congr
      intro entry _
      simp only [Bool.and_eq_true]
      exact ⟨fun hentry => ⟨hentry, closes entry hentry⟩, fun hentry => hentry.1⟩
    _ < (scope.getters.filter (unnamed r)).length := by
      rw [List.countP_lt_length_iff]
      refine ⟨(id, getter), ?_, ?_⟩
      · rw [List.mem_filter]
        exact ⟨hgetter, by simpa [unnamed, Registry.not_isNamed_iff] using new⟩
      · obtain ⟨n, hn⟩ := named
        unfold Registry.Named at hn
        simp [unnamed, hn]
    _ = scope.pending r := (List.countP_eq_length_filter ..).symm

/-! ## Lazy schemas -/

section

variable {scope} {id : NodeId}

theorem Ready.opening (h : Ready r o) (new : ¬ r.IsNamed id) : Ready (r.opening id) o :=
  ⟨h.tidy.opening new, h.numbered⟩

/-- The target has a type, which is registered. -/
theorem Grows.closeOk {s : Schema} {t : StaticType} (start : Ready r o) (new : ¬ r.IsNamed id)
    (h : scope.Grows (r.opening id) r' o o' r'.Named) (htarget : scope.target id = .ok s)
    (ht : DescribesDerived o' r'.Named s t) :
    let n := Registry.lazyName r.lazyCount
    scope.Grows r (r'.withType n t) o o' (r'.withType n t).Named := by
  intro n
  refine ⟨h.le.closeOk start.tidy new t, h.tidy.closeOk h.le t, h.owners, h.numbered, ?_⟩
  intro j m hm hj
  have hid : r'.Named id n := h.le.named Registry.opening_named
  -- The registered name has its type from here on, and the entries of the others stay.
  by_cases hmn : m = n
  · subst hmn
    obtain rfl := h.tidy.injective hm hid
    exact ⟨s, t, htarget, Registry.withType_lookup_self t, ht⟩
  · have hj' : ¬ (r.opening id).IsNamed j := by
      intro named
      rcases Registry.opening_isNamed_iff.mp named with rfl | named
      · exact hmn (hm.det hid)
      · exact hj named
    obtain ⟨s', t', htarget', hlookup, ht'⟩ := h.entries hm hj'
    exact ⟨s', t', htarget', (Registry.withType_lookup_ne t hmn).trans hlookup, ht'⟩

/-- The target has no type, and the name is taken back. -/
theorem Grows.closeError (start : Ready r o) (new : ¬ r.IsNamed id)
    (h : scope.Grows (r.opening id) r' o o' (scope.LeftBehind (r.opening id) r'))
    (stuck : ¬ scope.Grounded r.IsNamed (.lazy id)) :
    scope.Grows r (r'.without id) o o' (scope.LeftBehind r (r'.without id)) := by
  -- What still refers to the name that is taken back is left behind: it is dead, and the lazy schema
  -- leads nowhere.
  have left (j : NodeId) (n : String) :
      scope.LeftBehind (r.opening id) r' j n → scope.LeftBehind r (r'.without id) j n := by
    rintro (hn | ⟨dead, hj⟩)
    · by_cases hjid : j = id
      · subst hjid
        exact .inr ⟨h.tidy.dead_without hn, stuck⟩
      · exact .inl (Registry.without_named_iff.mpr ⟨hjid, hn⟩)
    · refine .inr ⟨dead.without id, fun ground => hj ?_⟩
      exact ground.mono fun _ => (Registry.Le.opening new).isNamed
  refine ⟨h.le.closeError new, h.tidy.closeError h.le start.tidy, h.owners, h.numbered, ?_⟩
  intro j m hm hj
  obtain ⟨hne, hm⟩ := Registry.without_named_iff.mp hm
  have hj' : ¬ (r.opening id).IsNamed j := by
    rw [Registry.opening_isNamed_iff, not_or]
    exact ⟨hne, hj⟩
  obtain ⟨s, t, htarget, hlookup, ht⟩ := h.entries hm hj'
  exact ⟨s, t, htarget, hlookup, ht.mono (fun _ _ hk => hk) left⟩

end

/-! ## Every derivation -/

/-- The next number goes to the shape of an object. -/
theorem takeShape_run (shape : List (String × Schema)) (seeks : NodeId → Prop) (start : Ready r o) :
    scope.Run r o (fun o' _ n => o' n = some shape) seeks (Registry.takeShape.exec r) := by
  rw [Registry.exec_takeShape]
  let o' : Owners := fun k => if k = r.shapeCount then some shape else o k
  have grows : scope.Grows r r.withShape o o' r.withShape.Named := by
    refine ⟨.withShape r, start.tidy.withShape, ?_, ?_, ?_⟩
    · intro k shape hk
      have : k ≠ r.shapeCount := Nat.ne_of_lt (start.numbered hk)
      simpa [o', this] using hk
    · intro k shape hk
      by_cases h : k = r.shapeCount
      · subst h
        exact Nat.lt_succ_self _
      · simp only [o', if_neg h] at hk
        exact Nat.lt_succ_of_lt (start.numbered hk)
    · intro id n hn new
      exact absurd ⟨n, hn⟩ new
  exact .ok grows (fun _ => .inl) (if_pos rfl)

/-- What a search from a schema finds behind lazy schemas without names. -/
abbrev Seeks (r : Registry) (s : Schema) (id : NodeId) : Prop :=
  scope.Reaches r.IsNamed s (.lazy id)

/-- Deriving the types of children in order, if each of them derives as it should. -/
theorem typesOf_run {depth : Nat} {ss : List Schema}
    (each : ∀ s ∈ ss, ∀ r o, Ready r o → scope.pending r < depth →
      scope.Run r o (fun o' r' t => DescribesDerived o' r'.Named s t) (scope.Seeks r s)
        ((scope.typeOf depth s).exec r))
    (start : Ready r o) (enough : scope.pending r < depth) :
    scope.Run r o (fun o' r' ts => DescribesAll (.derived o' r'.Named fun _ _ => False) r'.Named ss ts)
      (fun id => ∃ s ∈ ss, scope.Seeks r s id) ((scope.typesOf depth ss).exec r) := by
  induction ss generalizing r o with
  | nil =>
    rw [typesOf]
    exact .pure start .nil
  | cons s ss ih =>
    rw [typesOf]
    have first := each s List.mem_cons_self r o start enough
    refine (first.imp (fun _ _ _ _ h => h) fun id hid => ⟨s, List.mem_cons_self, hid⟩).bind ?_
    intro o₁ r₁ t grows ht
    have rest := ih (fun s hs => each s (List.mem_cons_of_mem _ hs)) grows.ready
      (Nat.lt_of_le_of_lt (scope.pending_le grows.le) enough)
    refine (rest.imp (fun _ _ _ _ h => h) ?_).bind ?_
    · rintro id ⟨s', hs', hid⟩
      exact ⟨s', List.mem_cons_of_mem _ hs', hid.anti fun _ => grows.le.isNamed⟩
    · intro o₂ r₂ ts grows' hts
      refine .pure grows'.ready (.cons ?_ hts)
      exact ht.mono (fun _ _ => grows'.owners) fun _ _ => grows'.le.named

/-- What deriving the type of a schema does, if it may open lazy schemas deep enough. -/
theorem typeOf_run (depth : Nat) (s : Schema) (r : Registry) (o : Owners) (start : Ready r o)
    (enough : scope.pending r < depth) :
    scope.Run r o (fun o' r' t => DescribesDerived o' r'.Named s t) (scope.Seeks r s)
      ((scope.typeOf depth s).exec r) := by
  have children (s' : Schema) (hs' : s' ∈ s.children) (r : Registry) (o : Owners)
      (start : Ready r o) (enough : scope.pending r < depth) :=
    typeOf_run depth s' r o start enough
  cases hs : s.isComposite with
  | true =>
    rw [scope.typeOf_composite hs]
    refine ((scope.typesOf_run children start enough).imp (fun _ _ _ _ h => h) ?_).bind ?_
    · rintro id ⟨c, hc, hid⟩
      exact .head (.child hc) hid
    · intro o' r' ts grows hts
      exact .pure grows.ready (.composite hs hts)
  | false =>
    cases s with
    | array | record | tuple | union | wrapper | pipe => cases hs
    | leaf id l =>
      rw [scope.typeOf_leaf]
      exact .pure start (.leaf rfl)
    | object id shape =>
      rw [scope.typeOf_object]
      refine (scope.takeShape_run shape _ start).bind ?_
      intro o₁ r₁ n grows hn
      have enough' := Nat.lt_of_le_of_lt (scope.pending_le grows.le) enough
      refine ((scope.typesOf_run children grows.ready enough').imp (fun _ _ _ _ h => h) ?_).bind ?_
      · rintro id ⟨c, hc, hid⟩
        exact .head (.child hc) (hid.anti fun _ => grows.le.isNamed)
      · intro o₂ r₂ ts grows' hts
        have hlength : (shape.map (·.1)).length = ts.length := by
          simpa [Schema.children] using hts.forall₂.length_eq
        refine .pure grows'.ready (.object ⟨n, rfl, rfl, grows'.owners hn⟩ ?_ ?_)
        · rw [List.map_fst_zip (Nat.le_of_eq hlength)]
        · rw [List.map_snd_zip (Nat.le_of_eq hlength.symm)]
          exact hts
    | lazy id =>
      -- A name is referred to as it is. Without one, the lazy schema is opened, and there is one
      -- getter less that could be opened behind it.
      by_cases named : r.IsNamed id
      · obtain ⟨n, hn⟩ := named
        rw [scope.exec_typeOf_named hn]
        exact .pure start (.reference hn)
      · obtain ⟨depth, rfl⟩ := Nat.exists_eq_succ_of_ne_zero (Nat.ne_zero_of_lt enough)
        rw [scope.exec_typeOf_unnamed named]
        have opened := start.opening named
        cases htarget : scope.target id with
        | error failure =>
          have stuck : ¬ scope.Grounded r.IsNamed (.lazy id) := by
            intro ground
            obtain ⟨s, hs⟩ := ground id .refl named
            exact absurd (hs.symm.trans htarget) (by simp)
          exact .error (Grows.closeError start named (.refl opened) stuck) .refl named htarget
        | ok s =>
          have fewer := scope.pending_lt (Registry.Le.opening named) named ⟨_, Registry.opening_named⟩ htarget
          have behind := typeOf_run depth s (r.opening id) o opened (by omega)
          have lead : scope.Leads r.IsNamed (.lazy id) s := .target named htarget
          simp only
          generalize (scope.typeOf depth s).exec (r.opening id) = x at behind
          cases behind with
          | @ok t r' o' grows found ht =>
            refine .ok (grows.closeOk start named htarget ht) ?_ (.reference ?_)
            · intro j hj
              rcases found j hj with hj | hreach
              · rcases Registry.opening_isNamed_iff.mp hj with rfl | hj
                · exact .inr .refl
                · exact .inl hj
              · exact .inr (.head lead (hreach.anti fun _ => (Registry.Le.opening named).isNamed))
            · exact grows.le.named Registry.opening_named
          | @error failure r' o' j grows hj new hfails =>
            -- The lazy schema that failed behind `id` is also found from `id`, through the target.
            have hj' := hj.anti fun _ => (Registry.Le.opening named).isNamed
            have new' : ¬ r.IsNamed j := fun hn => new ((Registry.Le.opening named).isNamed hn)
            refine .error (Grows.closeError start named grows ?_) (.head lead hj') new' hfails
            intro ground
            obtain ⟨s', hs'⟩ := ground j (.head lead hj') new'
            exact absurd (hs'.symm.trans hfails) (by simp)
termination_by (depth, sizeOf s)
decreasing_by
  · exact .right _ (Schema.sizeOf_lt_of_mem_children hs')
  · exact .left _ _ (by omega)

end Scope

end Schemata
