import Schemata.Proofs.Derivation.Run
import Schemata.Proofs.Output.Unions

/-!
# Output types of schemas

When a type is the output type of a schema. It has the structure of the schema without the wrappers. An
object has the output shape that was built for it, or, while that is being built, a reference to its
name.

The main statement is that the values of the output type are the values that fit the schema.
-/

namespace Schemata

/-! ## Leaves -/

/-- The output type of a leaf. -/
def Leaf.outputType : Leaf → StaticType
  | .literal value => .literalOfValue value
  | .enum values => .literalOf values
  | .transform _ => .any
  | l => .ofLeafClass l.schemaClass

/-- The members of literals are atoms. -/
def Leaf.IsAtomic : Leaf → Prop
  | .literal value => value.IsAtom
  | .enum values => ∀ v ∈ values, v.IsAtom
  | _ => True

/-- The members of a literal type are some of the values, and one for each of them. -/
theorem StaticType.literalOf_exact {values : List Value} (h : ∀ v ∈ values, v.IsExact) :
    ∃ members, literalOf values = .literal members ∧ (∀ m ∈ members, m ∈ values) ∧
      Value.Covers members values := by
  have loop (rest kept : List Value) (hrest : ∀ v ∈ rest, v.IsExact) :
      let out := rest.foldl (fun kept v =>
        if kept.any (·.equalTyped v) then kept else kept ++ [v]) kept
      (∀ m ∈ out, m ∈ kept ∨ m ∈ rest) ∧ (∀ m ∈ kept, m ∈ out) ∧ Value.Covers out rest := by
    induction rest generalizing kept with
    | nil => exact ⟨fun m hm => .inl hm, fun m hm => hm, fun v hv => absurd hv List.not_mem_nil⟩
    | cons w rest ih =>
      obtain ⟨hw, hothers⟩ := List.forall_mem_cons.mp hrest
      rw [List.foldl_cons]
      split
      next dropped =>
        obtain ⟨u, hu, same⟩ := List.any_eq_true.mp dropped
        obtain ⟨sub, keeps, covers⟩ := ih kept hothers
        refine ⟨fun m hm => (sub m hm).imp_right (List.mem_cons_of_mem w), keeps, ?_⟩
        exact List.forall_mem_cons.mpr ⟨⟨u, keeps u hu, same⟩, covers⟩
      next =>
        obtain ⟨sub, keeps, covers⟩ := ih (kept ++ [w]) hothers
        refine ⟨fun m hm => ?_, fun m hm => keeps m (List.mem_append_left _ hm), ?_⟩
        · rw [List.mem_cons, ← or_assoc, ← List.mem_singleton, ← List.mem_append]
          exact sub m hm
        · have last : w ∈ kept ++ [w] := List.mem_append_right _ (List.mem_singleton.mpr rfl)
          exact List.forall_mem_cons.mpr ⟨⟨w, keeps w last, hw.equalTyped_refl⟩, covers⟩
  obtain ⟨sub, _, covers⟩ := loop values [] h
  have hashable := (Value.allExact_iff.mpr h).unhashableIn?
  refine ⟨_, by rw [literalOf, hashable]; rfl, fun m hm => ?_, covers⟩
  exact (sub m hm).resolve_left List.not_mem_nil

theorem StaticType.literalOf_atoms {values : List Value} (h : ∀ v ∈ values, v.IsAtom) :
    ∃ members, literalOf values = .literal members ∧ ∀ v, v ∈ members ↔ v ∈ values := by
  obtain ⟨members, same, sub, covers⟩ := literalOf_exact fun v hv => (h v hv).isExact
  refine ⟨members, same, fun v => ⟨sub v, fun hv => ?_⟩⟩
  obtain ⟨m, hm, equal⟩ := covers v hv
  exact (h m (sub m hm)).equalTyped_iff.mp equal ▸ hm

theorem Leaf.outputType_spec {l : Leaf} (h : l.IsAtomic) (built : StaticType → Prop) :
    l.outputType.Settled built ∧
      ∀ named v, Inhabits named v l.outputType ↔ l.Gives v := by
  cases l with
  | literal value =>
    have hvalue : StaticType.literalOfValue value = .literalOf [value] := by
      cases value <;> first | rfl | cases h
    have atoms : ∀ v ∈ [value], v.IsAtom := fun v hv => List.mem_singleton.mp hv ▸ h
    obtain ⟨members, heq, hmem⟩ := StaticType.literalOf_atoms atoms
    simp only [outputType, hvalue, heq]
    refine ⟨.literal fun v hv => atoms v ((hmem v).mp hv), fun named v => ?_⟩
    rw [inhabits_literal_iff, hmem, List.mem_singleton]
    rfl
  | enum values =>
    obtain ⟨members, heq, hmem⟩ := StaticType.literalOf_atoms h
    simp only [outputType, heq]
    refine ⟨.literal fun v hv => h v ((hmem v).mp hv), fun named v => ?_⟩
    rw [inhabits_literal_iff, hmem]
    rfl
  | string | number | integer | boolean => exact ⟨.plain _, fun _ _ => inhabits_plain_iff⟩
  | null => exact ⟨.none, fun _ _ => inhabits_none_iff⟩
  | any | base | transform => exact ⟨.any, fun _ _ => iff_of_true inhabits_any trivial⟩

/-! ## Schemas -/

/-- The name of the output shape of the shape with a number. -/
def outputName (k : Nat) : String :=
  Registry.shapeName k ++ "Output"

theorem outputName_inj {j k : Nat} : outputName j = outputName k ↔ j = k := by
  unfold outputName Registry.shapeName
  rw [String.append_left_inj, String.append_right_inj]
  exact Nat.repr_inj

/-- A key and a value are smaller than the dictionary. -/
theorem Value.sizeOf_entry_lt {entries : List (Value × Value)} {e : Value × Value}
    (h : e ∈ entries) :
    sizeOf e.1 < sizeOf (Value.dict entries) ∧ sizeOf e.2 < sizeOf (Value.dict entries) := by
  have := List.sizeOf_lt_of_mem h
  rw [← Prod.eta e, Prod.mk.sizeOf_spec] at this
  simp only [Value.dict.sizeOf_spec]
  omega

namespace Scope

variable (scope : Scope) (limit : Nat)

/-- All literals that a search finds are made of atoms. -/
def Atomic (root : Schema) : Prop :=
  ∀ id l, scope.Contains root (.leaf id l) → l.IsAtomic

/-- A type is the output type of a schema. `entry` tells the output shapes by the numbers of their
shapes, and `known` holds of the shapes that may be referred to by name. -/
inductive Yields (owners : Owners) (entry : Nat → StaticType → Prop) (known : Nat → Prop) :
    Schema → StaticType → Prop
  | leaf {id : NodeId} {l : Leaf} : Yields owners entry known (.leaf id l) l.outputType
  | shape {id : NodeId} {shape : List (String × Schema)} {k : Nat} {t : StaticType} :
    owners k = some shape → entry k t → Yields owners entry known (.object id shape) t
  | name {id : NodeId} {shape : List (String × Schema)} {k : Nat} :
    owners k = some shape → known k →
    Yields owners entry known (.object id shape) (.reference (outputName k))
  | array {id : NodeId} {element : Schema} {t : StaticType} :
    Yields owners entry known element t → Yields owners entry known (.array id element) (.list t)
  | record {id : NodeId} {key value : Schema} {t u : StaticType} :
    Yields owners entry known key t → Yields owners entry known value u →
    Yields owners entry known (.record id key value) (.dict t u)
  | tuple {id : NodeId} {items : List Schema} {ts : List StaticType} :
    items.length = ts.length →
    (∀ pair ∈ items.zip ts, Yields owners entry known pair.1 pair.2) →
    Yields owners entry known (.tuple id items) (.tuple ts)
  | noOption {id : NodeId} : Yields owners entry known (.union id []) .never
  | union {id : NodeId} {options : List Schema} {ts : List StaticType} {u : StaticType} :
    options.length = ts.length →
    (∀ pair ∈ options.zip ts, Yields owners entry known pair.1 pair.2) →
    StaticType.unionOf ts = .ok u → Yields owners entry known (.union id options) u
  | orNone {id : NodeId} {w : Wrapper} {inner : Schema} {t u : StaticType} :
    w.allowsNone = true → Yields owners entry known inner t →
    StaticType.unionOf [t, .none] = .ok u → Yields owners entry known (.wrapper id w inner) u
  | wrapper {id : NodeId} {w : Wrapper} {inner : Schema} {t : StaticType} :
    w.allowsNone = false → Yields owners entry known inner t →
    Yields owners entry known (.wrapper id w inner) t
  | lazy {id : NodeId} {s : Schema} {t : StaticType} :
    scope.target id = .ok s → Yields owners entry known s t → Yields owners entry known (.lazy id) t
  | pipe {id : NodeId} {input output : Schema} {t : StaticType} :
    Yields owners entry known output t → Yields owners entry known (.pipe id input output) t

/-- A type is the output shape that is built for an object. -/
inductive OutputShape (owners : Owners) (entry : Nat → StaticType → Prop) (known : Nat → Prop)
    (k : Nat) (shape : List (String × Schema)) : StaticType → Prop
  | intro {fields : List (String × StaticType)} {optional : List String} :
    List.Forall₂ (fun property field => property.1 = field.1 ∧
      scope.Yields owners entry known property.2 field.2) shape fields →
    (∀ name, name ∈ optional ↔ ∃ s, (name, s) ∈ shape ∧ scope.MayLack limit s) →
    OutputShape owners entry known k shape
      (.shape (.output (.derived k)) (outputName k) fields optional)

variable {scope limit} {owners owners' : Owners} {entry entry' : Nat → StaticType → Prop}
  {known known' : Nat → Prop}

theorem Yields.mono (howners : ∀ k shape, owners k = some shape → owners' k = some shape)
    (hentry : ∀ k t, entry k t → entry' k t) (hknown : ∀ k, known k → known' k) {s : Schema}
    {t : StaticType} (h : scope.Yields owners entry known s t) :
    scope.Yields owners' entry' known' s t := by
  induction h with
  | leaf => exact .leaf
  | shape hk ht => exact .shape (howners _ _ hk) (hentry _ _ ht)
  | name hk hknow => exact .name (howners _ _ hk) (hknown _ hknow)
  | array _ ih => exact .array ih
  | record _ _ ihkey ihvalue => exact .record ihkey ihvalue
  | tuple hlength _ ih => exact .tuple hlength ih
  | noOption => exact .noOption
  | union hlength _ hu ih => exact .union hlength ih hu
  | orNone hw _ hu ih => exact .orNone hw ih hu
  | wrapper hw _ ih => exact .wrapper hw ih
  | lazy htarget _ ih => exact .lazy htarget ih
  | pipe _ ih => exact .pipe ih

theorem OutputShape.mono (howners : ∀ k shape, owners k = some shape → owners' k = some shape)
    (hentry : ∀ k t, entry k t → entry' k t) (hknown : ∀ k, known k → known' k) {k : Nat}
    {shape : List (String × Schema)} {t : StaticType}
    (h : scope.OutputShape limit owners entry known k shape t) :
    scope.OutputShape limit owners' entry' known' k shape t := by
  obtain ⟨hfields, hoptional⟩ := h
  refine .intro (hfields.imp ?_) hoptional
  exact fun _ _ ⟨hname, hyields⟩ => ⟨hname, hyields.mono howners hentry hknown⟩

/-! ## Values -/

variable {named : String → Option StaticType}

theorem Atomic.of_contains {root s : Schema} (h : scope.Atomic root) (hs : scope.Contains root s) :
    scope.Atomic s :=
  fun id l hl => h id l (hs.trans hl)

theorem Atomic.child {s c : Schema} (h : scope.Atomic s) (hc : c ∈ s.children) : scope.Atomic c :=
  h.of_contains (.single (.child hc))

theorem Atomic.target {id : NodeId} {s : Schema} (h : scope.Atomic (.lazy id))
    (hs : scope.target id = .ok s) : scope.Atomic s :=
  h.of_contains (.single (.target (fun h => h) hs))

/-- Output types can be formed for a schema: literals are made of atoms, and every cycle passes through
an object. -/
structure Expressible (scope : Scope) (root : Schema) : Prop where
  atomic : scope.Atomic root
  guarded : scope.Guarded root

namespace Expressible

theorem of_contains {root s : Schema} (h : scope.Expressible root) (hs : scope.Contains root s) :
    scope.Expressible s :=
  ⟨h.atomic.of_contains hs, h.guarded.of_contains hs⟩

theorem child {s c : Schema} (h : scope.Expressible s) (hc : c ∈ s.children) :
    scope.Expressible c :=
  h.of_contains (.single (.child hc))

theorem target {id : NodeId} {s : Schema} (h : scope.Expressible (.lazy id))
    (hs : scope.target id = .ok s) : scope.Expressible s :=
  h.of_contains (.single (.target (fun h => h) hs))

end Expressible

/-- Every output shape is the one that is built for its object. -/
structure Shaped (scope : Scope) (limit : Nat) (owners : Owners) (entry : Nat → StaticType → Prop)
    (known : Nat → Prop) : Prop where
  shapes {k : Nat} {t : StaticType} : entry k t →
    ∃ shape, owners k = some shape ∧ scope.OutputShape limit owners entry known k shape t
  unique {k : Nat} {t u : StaticType} : entry k t → entry k u → t = u

/-- A type is one of the output shapes. -/
abbrev IsEntry (entry : Nat → StaticType → Prop) (t : StaticType) : Prop :=
  ∃ k, entry k t

theorem Shaped.identified (h : scope.Shaped limit owners entry known) :
    StaticType.Identified (IsEntry entry) := by
  rintro id n₁ f₁ o₁ n₂ f₂ o₂ ⟨j, hj⟩ ⟨k, hk⟩
  obtain ⟨_, _, ht⟩ := h.shapes hj
  obtain ⟨_, _, hu⟩ := h.shapes hk
  cases ht
  cases hu
  cases h.unique hj hk
  exact ⟨rfl, rfl, rfl⟩

/-- Where literals are made of atoms, output types can be members of unions. -/
theorem Yields.settled (shaped : scope.Shaped limit owners entry known) {s : Schema}
    {t : StaticType} (h : scope.Yields owners entry known s t) (atomic : scope.Atomic s) :
    t.Settled (IsEntry entry) := by
  have all {ss : List Schema} {ts : List StaticType} (hlength : ss.length = ts.length)
      (ih : ∀ pair ∈ ss.zip ts, scope.Atomic pair.1 → pair.2.Settled (IsEntry entry))
      (atomic : ∀ s ∈ ss, scope.Atomic s) : ∀ t ∈ ts, t.Settled (IsEntry entry) := by
    intro t ht
    have each := List.forall₂_iff_zip.mpr ⟨hlength, fun hpair => ih _ hpair⟩
    obtain ⟨s, hs, settled⟩ := exists_left_of_forall₂ each ht
    exact settled (atomic s hs)
  induction h with
  | leaf => exact (Leaf.outputType_spec (atomic _ _ .refl) _).1
  | shape _ ht =>
    obtain ⟨_, _, hshape⟩ := shaped.shapes ht
    cases hshape
    exact .shape ⟨_, ht⟩
  | name => exact .reference _
  | array _ ih => exact .list (ih (atomic.child (Schema.element_mem_children _ _)))
  | record _ _ ihkey ihvalue =>
    exact .dict (ihkey (atomic.child (Schema.key_mem_children _ _ _)))
      (ihvalue (atomic.child (Schema.value_mem_children _ _ _)))
  | tuple hlength _ ih => exact .tuple (all hlength ih fun s hs => atomic.child hs)
  | noOption => exact .never
  | union hlength _ hu ih =>
    have members := all hlength ih fun s hs => atomic.child hs
    obtain ⟨u, hu', settled, _⟩ := StaticType.unionOf_ok shaped.identified members
    obtain rfl := Except.ok.inj (hu.symm.trans hu')
    exact settled
  | orNone _ _ hu ih =>
    have inner := ih (atomic.child (Schema.inner_mem_children _ _ _))
    obtain ⟨u, hu', settled, _⟩ := StaticType.unionOf_none_ok shaped.identified inner
    obtain rfl := Except.ok.inj (hu.symm.trans hu')
    exact settled
  | wrapper _ _ ih => exact ih (atomic.child (Schema.inner_mem_children _ _ _))
  | lazy htarget _ ih => exact ih (atomic.target htarget)
  | pipe _ ih => exact ih (atomic.child (Schema.output_mem_children _ _ _))

/-- Every shape that may be referred to by name is there, under its name, if it can be formed. -/
structure Closed (scope : Scope) (limit : Nat) (owners : Owners) (entry : Nat → StaticType → Prop)
    (known : Nat → Prop) (named : String → Option StaticType) : Prop
    extends Shaped scope limit owners entry known where
  named {id : NodeId} {k : Nat} {shape : List (String × Schema)} : known k → owners k = some shape →
    scope.Expressible (.object id shape) → ∃ t, entry k t ∧ named (outputName k) = some t

/-- The values that belong to the output types of a schema are those that fit the schema, as far as a
value is concerned. -/
abbrev Agrees (scope : Scope) (limit : Nat) (owners : Owners) (entry : Nat → StaticType → Prop)
    (known : Nat → Prop) (named : String → Option StaticType) (v : Value) : Prop :=
  ∀ s t, scope.Expressible s → scope.Yields owners entry known s t →
    (Inhabits named v t ↔ scope.Fits limit s v)

/-- An output shape has the values that fit its object, if this is so for the parts of the value. -/
theorem OutputShape.inhabits_iff {v : Value}
    (smaller : ∀ w, sizeOf w < sizeOf v → scope.Agrees limit owners entry known named w)
    {id : NodeId} {k : Nat} {shape : List (String × Schema)} {t : StaticType}
    (h : scope.OutputShape limit owners entry known k shape t)
    (expressible : scope.Expressible (.object id shape)) :
    Inhabits named v t ↔ scope.Fits limit (.object id shape) v := by
  obtain ⟨hfields, hoptional⟩ := h
  rename_i fields optional
  have property {name : String} {s : Schema} (hs : (name, s) ∈ shape) : scope.Expressible s :=
    expressible.child (Schema.property_mem_children id hs)
  have names : shape.map (·.1) = fields.map (·.1) := by
    refine List.forall₂_eq_eq_eq ▸ ?_
    rw [List.forall₂_map_left_iff, List.forall₂_map_right_iff]
    exact hfields.imp fun _ _ h => h.1
  have required (name : String) : name ∉ optional ↔ ∀ s, (name, s) ∈ shape → ¬ scope.MayLack limit s := by
    rw [hoptional]
    simp
  -- Both sides ask for entries that are right and for names that are present. The entries are
  -- smaller than the value, and the optional names are those of the properties that may lack.
  constructor
  · intro hv
    cases hv with
    | shape hentries hpresent =>
      refine .object ?_ ?_
      · intro e he
        obtain ⟨hmem, hw⟩ := hentries e he
        obtain ⟨⟨name, s⟩, hs, hname, yields⟩ := exists_left_of_forall₂ hfields hmem
        obtain rfl : name = _ := hname
        exact .intro hs ((smaller _ (Value.sizeOf_entry_lt he).2 s _ (property hs) yields).mp hw)
      · intro name hname hlack
        exact hpresent name (names ▸ hname) ((required name).mpr hlack)
  · intro hv
    cases hv with
    | object hentries hpresent =>
      refine .shape ?_ ?_
      · intro e he
        obtain ⟨hs, hw⟩ := hentries e he
        obtain ⟨⟨name, t⟩, ht, hname, yields⟩ := exists_right_of_forall₂ hfields hs
        obtain rfl : _ = name := hname
        exact .intro ht ((smaller _ (Value.sizeOf_entry_lt he).2 _ t (property hs) yields).mpr hw)
      · intro name hname hoptional
        exact hpresent name (names ▸ hname) ((required name).mp hoptional)

/-- The agreement on a value follows from that on smaller values. -/
theorem Closed.agrees_of_smaller (closed : scope.Closed limit owners entry known named) {v : Value}
    (smaller : ∀ w, sizeOf w < sizeOf v → scope.Agrees limit owners entry known named w) :
    scope.Agrees limit owners entry known named v := by
  intro s t expressible h
  have item {items : List Value} {w : Value} (h : w ∈ items) :
      sizeOf w < 1 + sizeOf items := by
    have := List.sizeOf_lt_of_mem h
    omega
  have shape {id : NodeId} {shape : List (String × Schema)} {k : Nat} {t : StaticType}
      (hk : owners k = some shape) (ht : entry k t) (expressible : scope.Expressible (.object id shape)) :
      Inhabits named v t ↔ scope.Fits limit (.object id shape) v := by
    obtain ⟨shape', hk', hshape⟩ := closed.shapes ht
    obtain rfl := Option.some.inj (hk.symm.trans hk')
    exact hshape.inhabits_iff smaller expressible
  -- Where a value goes down into its parts, the assumption is about smaller values. Where it stays
  -- the same, behind wrappers, lazy schemas and unions, it is the induction that is used.
  induction h with
  | leaf =>
    simpa using (Leaf.outputType_spec (expressible.atomic _ _ .refl) fun _ => False).2 named v
  | shape hk ht => exact shape hk ht expressible
  | name hk hknown =>
    -- A name stands for the entry of the same object, so this is the case of a shape.
    obtain ⟨t, ht, hnamed⟩ := closed.named hknown hk expressible
    simp [← shape hk ht expressible, hnamed]
  | @array id element t h _ =>
    have inside := expressible.child (Schema.element_mem_children id element)
    rw [inhabits_list_iff, fits_array_iff]
    refine exists_congr fun items => and_congr_right ?_
    rintro rfl
    refine forall₂_congr fun w hw => smaller w ?_ element t inside h
    simpa using item hw
  | @record id key value t u hkey hvalue _ _ =>
    have keys := expressible.child (Schema.key_mem_children id key value)
    have values := expressible.child (Schema.value_mem_children id key value)
    rw [inhabits_dict_iff, fits_record_iff]
    refine exists_congr fun entries => and_congr_right ?_
    rintro rfl
    refine and_congr ?_ ?_
    · exact forall₂_congr fun e he => smaller _ (Value.sizeOf_entry_lt he).1 key t keys hkey
    · exact forall₂_congr fun e he => smaller _ (Value.sizeOf_entry_lt he).2 value u values hvalue
  | @tuple id ss ts hlength h _ =>
    rw [inhabits_tuple_iff, fits_tuple_iff]
    refine exists_congr fun items => and_congr_right ?_
    rintro rfl
    refine forall₂_iff_of_forall₂ (forall₂_mem (List.forall₂_iff_zip.mpr ⟨hlength, h _⟩)) ?_
    rintro w hw s t ⟨hs, _, yields⟩
    exact smaller w (by simpa using item hw) s t (expressible.child hs) yields
  | noOption => simp
  | @union id ss ts u hlength h hu ih =>
    have options {s : Schema} (hs : s ∈ ss) : scope.Expressible s := expressible.child hs
    have each : List.Forall₂ (fun s t => scope.Yields owners entry known s t ∧
        (scope.Expressible s → (Inhabits named v t ↔ scope.Fits limit s v))) ss ts :=
      List.forall₂_iff_zip.mpr ⟨hlength, fun hpair => ⟨h _ hpair, ih _ hpair⟩⟩
    have members : ∀ t ∈ ts, t.Settled (IsEntry entry) := by
      intro t ht
      obtain ⟨s, hs, yields, _⟩ := exists_left_of_forall₂ each ht
      exact yields.settled closed.toShaped (options hs).atomic
    -- The union may have dropped equal members, but it has the values of all.
    obtain ⟨u', hu', _, values⟩ := StaticType.unionOf_ok closed.identified members
    obtain rfl := Except.ok.inj (hu.symm.trans hu')
    rw [values, fits_union_iff]
    constructor
    · rintro ⟨t, ht, hv⟩
      obtain ⟨s, hs, _, same⟩ := exists_left_of_forall₂ each ht
      exact ⟨s, hs, (same (options hs)).mp hv⟩
    · rintro ⟨s, hs, hv⟩
      obtain ⟨t, ht, _, same⟩ := exists_right_of_forall₂ each hs
      exact ⟨t, ht, (same (options hs)).mpr hv⟩
  | @orNone id w inner t u hw h hu ih =>
    have inside := expressible.child (Schema.inner_mem_children id w inner)
    obtain ⟨u', hu', _, values⟩ := StaticType.unionOf_none_ok closed.identified
      (h.settled closed.toShaped inside.atomic)
    obtain rfl := Except.ok.inj (hu.symm.trans hu')
    have same := ih inside
    rw [values, fits_wrapper_iff, hw, and_iff_right rfl]
    exact or_congr_right same
  | @wrapper id w inner t hw h ih =>
    have same := ih (expressible.child (Schema.inner_mem_children id w inner))
    simpa [hw] using same
  | lazy htarget _ ih => exact (ih (expressible.target htarget)).trans (fits_lazy_iff htarget).symm
  | pipe _ ih => simpa using ih (expressible.child (Schema.output_mem_children _ _ _))

/-- The values of the output type of a schema are those that fit the schema. -/
theorem Closed.agrees (closed : scope.Closed limit owners entry known named) (v : Value) :
    scope.Agrees limit owners entry known named v :=
  closed.agrees_of_smaller fun w _ => closed.agrees w
termination_by sizeOf v

end Scope

end Schemata
