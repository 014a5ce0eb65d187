import Schemata.Proofs.Session.Outputs
import Schemata.Proofs.Validation.Renumbering

/-!
# Properties that may be left out

Whether a property may be left out of an object is decided three times: for its schema, for its type
when the output type of the object is built, and in the plan of the object. All three follow wrappers
and lazy schemas as far as the limit allows and come to the same decision.
-/

namespace Schemata

/-- Whatever belongs together has the same key. -/
theorem map_eq_of_forall₂ {α β κ : Type} {R : α → β → Prop} {f : α → κ} {g : β → κ} {as : List α}
    {bs : List β} (h : List.Forall₂ R as bs) (same : ∀ a b, R a b → f a = g b) :
    as.map f = bs.map g := by
  have equal : List.Forall₂ (· = ·) (as.map f) (bs.map g) :=
    List.forall₂_map_left_iff.mpr (List.forall₂_map_right_iff.mpr (h.imp same))
  rwa [List.forall₂_eq_eq_eq] at equal

/-- Two pairings, the second of which goes on from the first. -/
theorem forall₂_comp {α β γ : Type} {R : α → β → Prop} {S : β → γ → Prop} {as : List α}
    {bs : List β} {cs : List γ} (h : List.Forall₂ R as bs) (h' : List.Forall₂ S bs cs) :
    List.Forall₂ (fun a c => ∃ b, R a b ∧ S b c) as cs := by
  induction h generalizing cs with
  | nil =>
    cases h'
    exact .nil
  | cons first _ ih =>
    cases h' with
    | cons first' rest' => exact .cons ⟨_, first, first'⟩ (ih rest')

/-! ## Marks -/

namespace Scope

variable {scope : Scope} {limit : Nat} {shape : List (String × Schema)}

/-- A mark at the name of a property tells whether its schema allows absence by being optional. -/
def Marks (scope : Scope) (limit : Nat) (property : String × Schema) (name : String)
    (mark : Bool) : Prop :=
  property.1 = name ∧ ∃ absence, (scope.absence limit property.2).outcome = .ok absence ∧
    (mark = true ↔ absence = some .optional)

theorem Marks.iff {property : String × Schema} {name : String} {mark : Bool} {absence : Option Kind}
    (h : scope.Marks limit property name mark)
    (habsence : (scope.absence limit property.2).outcome = .ok absence) :
    mark = true ↔ absence = some .optional := by
  obtain ⟨_, absence', habsence', mark⟩ := h
  obtain rfl := Except.ok.inj (habsence'.symm.trans habsence)
  exact mark

/-- With different names, the marked names are those of the properties whose schemas are optional. -/
theorem mem_marked_iff {α : Type} {name : α → String} {mark : α → Bool} {marked : List α}
    (h : List.Forall₂ (fun property a => scope.Marks limit property (name a) (mark a)) shape marked)
    (distinct : (shape.map (·.1)).Nodup) {k : String} {child : Schema}
    (hk : (k, child) ∈ shape) {absence : Option Kind}
    (habsence : (scope.absence limit child).outcome = .ok absence) :
    k ∈ (marked.filter mark).map name ↔ absence = some .optional := by
  rw [List.mem_map]
  constructor
  · rintro ⟨a, ha, rfl⟩
    obtain ⟨ha, marks⟩ := List.mem_filter.mp ha
    obtain ⟨property, hproperty, related⟩ := exists_left_of_forall₂ h ha
    -- the property that was marked is the one of this name, as there is no other one
    obtain rfl := List.inj_on_of_nodup_map distinct hproperty hk related.1
    exact (related.iff habsence).mp marks
  · intro optional
    obtain ⟨a, ha, related⟩ := exists_right_of_forall₂ h hk
    exact ⟨a, List.mem_filter.mpr ⟨ha, (related.iff habsence).mpr optional⟩, related.1.symm⟩

end Scope

/-! ## Plans -/

/-- A plan that supplies a value where there is none. -/
def Plan.isSupplied : Plan → Bool
  | .supplied .. => true
  | _ => false

/-- A property that may be left out, and for which nothing is supplied then. -/
def Field.omissible (field : Field Plan) : Bool :=
  !field.required && !field.plan.isSupplied

namespace Scope

variable {scope : Scope} {limit budget : Nat} {number : NodeId → Nat → Prop} {s : Schema} {p : Plan}
  {absence : Option Kind} {shape : List (String × Schema)} {fields : List (Field Plan)}

/-- Only a default that is found first is supplied by a plan itself. -/
theorem Plans.isSupplied_of_absence (h : scope.Plans limit number s p)
    (optional : (scope.absence budget s).outcome = .ok (some .optional)) : p.isSupplied = false := by
  induction budget generalizing s p with
  | zero => cases optional
  | succ budget ih =>
    cases h with
    | @wrapper _ w _ _ hp =>
      cases w with
      | optional => rfl
      | nullable => rfl
      | readonly => exact ih hp optional
      | default => cases optional
    | pipe => rfl
    | lazy => rfl
    | _ => cases optional

/-- A field is omissible if the schema of the property allows absence by being optional. -/
theorem Plans.fieldOf_omissible_iff (h : scope.Plans limit number s p)
    (habsence : (scope.absence limit s).outcome = .ok absence) (name : String) :
    (fieldOf name s p absence).omissible = true ↔ absence = some .optional := by
  cases absence with
  | none => simp [fieldOf, Field.omissible]
  | some k =>
    rcases absence_cases habsence with rfl | rfl
    · simp [fieldOf, Field.omissible, h.isSupplied_of_absence habsence]
    · cases allowed : s.kind.allowsAbsence with
      | false => simp [fieldOf, Field.omissible, allowed, Plan.isSupplied]
      | true =>
        -- a default as the outermost wrapper supplies its value itself
        obtain ⟨id, value, inner, rfl⟩ := eq_default_of_absence habsence allowed
        cases h with
        | wrapper => simp [fieldOf, Field.omissible, allowed, planOfWrapper, Plan.isSupplied]

theorem PlansShape.omissible (h : scope.PlansShape limit number shape fields) :
    List.Forall₂ (fun property field => scope.Marks limit property field.name field.omissible)
      shape fields := by
  induction shape generalizing fields with
  | nil =>
    cases h
    exact .nil
  | cons property shape ih =>
    cases h with
    | cons hp habsence hfields =>
      refine .cons ⟨?_, _, habsence, hp.fieldOf_omissible_iff habsence _⟩ (ih hfields)
      exact (fieldOf_name ..).symm

end Scope

/-! ## Output shapes -/

namespace Names

variable {names : Names} {limit objects references : Nat} {building : List ShapeId}
  {fields : List (String × StaticType)} {made : List (String × StaticType × Bool)}
  {cache : OutputCache}

/-- The fields that are marked as absent are those whose types are optional. -/
theorem outputFields_marks
    (h : ((names.outputFields limit objects references building fields).exec cache).1 = .ok made) :
    List.Forall₂ (fun field made => field.1 = made.1 ∧
      (made.2.2 = true ↔ names.absence limit field.2 = some .optional)) fields made := by
  induction fields generalizing cache made with
  | nil =>
    rw [outputFields] at h
    exact Except.ok.inj h ▸ .nil
  | cons field rest ih =>
    obtain ⟨name, t⟩ := field
    rw [outputFields] at h
    obtain ⟨output, cache₁, _, h⟩ := Stateful.exec_bind_eq_ok (Prod.ext h rfl)
    obtain ⟨rests, cache₂, others, h⟩ := Stateful.exec_bind_eq_ok h
    cases h
    exact .cons ⟨rfl, by simp⟩ (ih (congrArg Prod.fst others))

/-- The output shape of an object type whose shape is new has the fields that are made for it. -/
theorem exists_made_of_outputOf {sid : ShapeId} {name : String} {optional : List String}
    {looked : List (String × StaticType)} {t u : StaticType}
    (ht : t = .schema .object (some [.shape sid name fields optional]))
    (new : cache.lookup sid = none) (hlooked : names.fieldsOf sid fields = (looked, none))
    (h : ((names.outputOf limit t).exec cache).1 = .ok u) :
    ∃ made, List.Forall₂ (fun field made => field.1 = made.1 ∧
        (made.2.2 = true ↔ names.absence limit field.2 = some .optional)) looked made ∧
      u = shapeOf sid name made := by
  subst ht
  have shape : names.arg (.schema .object (some [.shape sid name fields optional])) 0
      = .shape sid name fields optional := arg_of_not_isReference names rfl rfl
  have bound : ∃ objects, names.shapeBound
      (.schema .object (some [.shape sid name fields optional])) = objects + 1 := by
    refine ⟨_, (Nat.succ_pred_eq_of_pos ?_).symm⟩
    simp only [shapeBound, StaticType.shapeCount, StaticType.shapeCountAll]
    omega
  obtain ⟨objects, bound⟩ := bound
  rw [outputOf, bound, exec_object_new names shape new rfl hlooked] at h
  obtain ⟨made, _, run, h⟩ := Stateful.exec_bind_eq_ok (Prod.ext h rfl)
  refine ⟨made, outputFields_marks (congrArg Prod.fst run), ?_⟩
  exact (Except.ok.inj (Prod.mk.inj h).1).symm

end Names

namespace Scope

variable {scope : Scope} {r r' : Registry} {o o' : Owners} {id : NodeId}
  {shape : List (String × Schema)} {t : StaticType}

/-! ## Derived types -/

/-- A derived type tells of absence what its schema tells, under every limit. -/
theorem Sound.absence (h : scope.Sound r o) {s : Schema}
    (hst : Describes (scope.reading o r.Named) r.Named s t) (limit : Nat) :
    (scope.absence limit s).outcome = .ok (r.names.absence limit t) := by
  exact (h.legible (r.names.shapeIds_subset_shapesAround t)).absence limit
    (hst.within (List.subset_append_left _ _))

/-- The type of a property is found in a description of an object, and describes its schema. -/
theorem Sound.exists_property (h : scope.Sound r o)
    (hst : Describes (scope.reading o r.Named) r.Named (.object id shape) t) {k : String}
    {child : Schema} (hk : shape.lookup k = some child) :
    ∃ c, r.names.property? t k = .ok (some c) ∧
      Describes (scope.reading o r.Named) r.Named child c := by
  have found : Related (Option.Rel (DescribesUnder (scope.reading o r.Named) (· = r.Named)))
      (.ok (shape.lookup k)) (r.names.property? t k) :=
    h.traversable.simulation.property k ⟨_, rfl, hst⟩ rfl
  rw [hk] at found
  generalize r.names.property? t k = x at found
  cases found with
  | ok related =>
    cases related with
    | some described =>
      obtain ⟨_, rfl, described⟩ := described
      exact ⟨_, rfl, described⟩

/-- In the output shape that is built for a new shape of an object, the optional properties are those
whose schemas are optional. -/
theorem Sound.exists_made (h : scope.Sound r o) {sid : ShapeId} {name : String}
    {fields : List (String × StaticType)} {optional : List String} {limit : Nat}
    {cache : OutputCache} {u : StaticType} (ht : t = .schema .object (some [.shape sid name fields optional]))
    (hst : DescribesDerived o r.Named (.object id shape) t) (new : cache.lookup sid = none)
    (builds : ((r.names.outputOf limit t).exec cache).1 = .ok u) :
    ∃ made, u = Names.shapeOf sid name made ∧
      List.Forall₂ (fun property made => scope.Marks limit property made.1 made.2.2) shape made := by
  have legible := h.legible (r.names.shapeIds_subset_shapesAround t)
  have described : Describes ((scope.reading o r.Named).within (r.names.shapesAround t)) r.Named
      (.object id shape) t :=
    hst.toReading.within (List.subset_append_left _ _)
  subst ht
  cases described with
  | composite composite => cases composite
  | object _ hnames hfields =>
    have looked := legible.fields hnames hfields
    have faultless := Names.fieldsOf_of_fault? (legible.traversable.faultless_fields hfields)
    obtain ⟨made, marks, rfl⟩ := Names.exists_made_of_outputOf rfl new faultless builds
    refine ⟨made, rfl, (forall₂_comp looked marks).imp ?_⟩
    rintro property made ⟨field, ⟨_, same, described⟩, same', mark⟩
    exact ⟨same.trans same', _, legible.absence limit described, mark⟩

/-- The type that is derived from an object has the next shape. -/
theorem staticType_object (h : (scope.staticType (.object id shape)).exec r = (.ok t, r')) :
    ∃ fields, t = .schema .object (some [.shape (.derived r.shapeCount)
      (Registry.shapeName r.shapeCount) fields []]) := by
  rw [staticType, typeOf_object, Stateful.exec_bind_ok (Registry.exec_takeShape r)] at h
  obtain ⟨ts, _, _, h⟩ := Stateful.exec_bind_eq_ok h
  exact ⟨_, (Except.ok.inj (Prod.mk.inj h).1).symm⟩

end Scope

namespace Session

open Scope

variable {start σ : Session} {derived : List (Schema × StaticType)}

/-- No output type is remembered for a shape that has not been derived. -/
theorem Remembers.unbuilt {o : Owners} (h : Remembers σ derived o) {k : Nat}
    (hk : σ.registry.shapeCount ≤ k) : σ.outputs.lookup (.derived k) = none := by
  cases found : σ.outputs.lookup (.derived k) with
  | none => rfl
  | some t =>
    obtain ⟨shape, owned, _⟩ := (h.cached σ.workshop.scope fun _ _ h => h).shapes found
    exact absurd (h.sound.ready.numbered owned) (Nat.not_lt.mpr hk)

/-- The type that is derived from a schema tells of absence what the schema tells. -/
theorem absence_of_deriveType {o : Owners} {s : Schema} {t : StaticType} {σ' : Session}
    (sound : σ.workshop.scope.Sound σ.registry o)
    (derives : (deriveType (.schema s)).exec σ = (.ok t, σ')) (limit : Nat) :
    (σ.workshop.scope.absence limit s).outcome = .ok (σ'.registry.names.absence limit t) := by
  have start : σ.workshop.scope.Sound σ.unasked o := sound.with σ.registry.names.declared []
  rw [exec_deriveType] at derives
  obtain ⟨hok, rfl⟩ := Prod.mk.inj derives
  have run := σ.workshop.scope.staticType_run start.ready s
  generalize (σ.workshop.scope.staticType s).exec σ.unasked = x at run hok ⊢
  cases run with
  | error => cases hok
  | ok grows _ ht =>
    obtain rfl := Except.ok.inj hok
    exact (start.grows grows).absence ht.toReading limit

/-- If an object compiles and its output type is defined, then under whatever limit, a property is
optional in the output type if and only if the schema of the property tells that it may be absent by
being optional, if and only if the plan of the property lets it be left out and supplies nothing. The
type of the property in the object, and the type that is derived from its schema alone, tell of
absence what the schema tells. -/
theorem omissible_properties_agree {settings : Settings} {id : NodeId}
    {shape : List (String × Schema)} {validator : Validator} {t u : StaticType} {σ₁ σ₂ : Session}
    (fresh : Scope.Fresh start.registry) (empty : start.outputs = [])
    (history : History start derived σ) (distinct : (shape.map (·.1)).Nodup)
    (compiles : (σ.workshop.scope.compile settings.maxUnwrapDepth (.object id shape)).outcome
      = .ok validator)
    (derives : (deriveType (.schema (.object id shape))).exec { σ with settings } = (.ok t, σ₁))
    (builds : (outputOfType t).exec σ₁ = (.ok u, σ₂)) :
    ∃ planned sid name fields optional, validator.root = .object planned ∧
      planned.map (·.name) = shape.map (·.1) ∧ u = .shape sid name fields optional ∧
      fields.map (·.1) = shape.map (·.1) ∧ optional ⊆ shape.map (·.1) ∧
      ∀ k child, shape.lookup k = some child → ∃ absence field c,
        (σ.workshop.scope.absence settings.maxUnwrapDepth child).outcome = .ok absence ∧
        (k ∈ optional ↔ absence = some .optional) ∧
        field ∈ planned ∧ field.name = k ∧ (field.omissible = true ↔ absence = some .optional) ∧
        σ₁.registry.names.property? t k = .ok (some c) ∧
        σ₁.registry.names.absence settings.maxUnwrapDepth c = absence ∧
        ∀ c' σ₃, (deriveType (.schema child)).exec σ₁ = (.ok c', σ₃) →
          σ₃.registry.names.absence settings.maxUnwrapDepth c' = absence := by
  obtain ⟨o, remembers⟩ := history.remembers fresh empty
  have unbuilt := remembers.unbuilt (Nat.le_refl _)
  have start : σ.workshop.scope.Sound σ.unasked o :=
    remembers.sound.with σ.registry.names.declared []
  -- the derived type, in the registry that it leaves behind
  rw [exec_deriveType] at derives
  obtain ⟨hok, rfl⟩ := Prod.mk.inj derives
  have run := σ.workshop.scope.staticType_run start.ready (.object id shape)
  generalize hrun : (σ.workshop.scope.staticType (.object id shape)).exec σ.unasked = x
    at run hok builds ⊢
  cases run with
  | error => cases hok
  | @ok _ r o' grows _ ht =>
    obtain rfl := Except.ok.inj hok
    have sound := start.grows grows
    obtain ⟨fields, shaped⟩ := staticType_object hrun
    -- the output type
    rw [exec_outputOfType] at builds
    obtain ⟨made, rfl, marks⟩ :=
      sound.exists_made shaped ht unbuilt (congrArg Prod.fst builds)
    -- the plan
    obtain ⟨d, _, finished⟩ := compile_finished compiles
    have plans := finished.plans
    generalize validator.root = root at plans ⊢
    cases plans with
    | @object _ _ planned hplanned =>
      have omissible := hplanned.omissible
      have names : made.map (·.1) = shape.map (·.1) :=
        (map_eq_of_forall₂ marks fun _ _ h => h.1).symm
      have planned_names : planned.map (·.name) = shape.map (·.1) :=
        (map_eq_of_forall₂ omissible fun _ _ h => h.1).symm
      refine ⟨planned, _, _, _, _, rfl, planned_names, rfl, ?_, ?_, ?_⟩
      · rw [← names, List.map_map]
        rfl
      · rw [← names]
        exact List.map_subset _ List.filter_sublist.subset
      · intro k child hk
        have member := mem_of_lookup hk
        obtain ⟨c, found, described⟩ := sound.exists_property ht.toReading hk
        obtain ⟨field, hfield, same, absence, habsence, omitted⟩ :=
          exists_right_of_forall₂ omissible member
        have agreed {absence' : Option Kind}
            (h : (σ.workshop.scope.absence settings.maxUnwrapDepth child).outcome = .ok absence') :
            absence' = absence :=
          Except.ok.inj (h.symm.trans habsence)
        refine ⟨absence, field, c, habsence, mem_marked_iff marks distinct member habsence, hfield,
          same.symm, omitted, found, agreed (sound.absence described _), fun c' σ₃ derives' => ?_⟩
        exact agreed (absence_of_deriveType sound derives' _)

/-- Optional properties behind one wrapper, behind two, and behind a lazy schema. -/
def wrapped : List (String × Schema) :=
  [("near", .wrapper 2 .nullable (.wrapper 1 .optional (.leaf 0 .null))),
    ("far", .wrapper 3 .readonly (.wrapper 2 .nullable (.wrapper 1 .optional (.leaf 0 .null)))),
    ("later", .lazy 4)]

/-- A session in which what the lazy schema stands for is defined. -/
def withWrapped : Session :=
  { initial with
    workshop :=
      { Workshop.empty with
        scope :=
          { defs := [("LATER", .schema (.wrapper 1 .optional (.leaf 0 .null)))]
            getters := [(4, .named "LATER")] } } }

/-- Under the limit two, what is optional behind two wrappers is not found. -/
theorem omissible_properties_agree_wrapped :
    let settings : Settings := { initial.settings with maxUnwrapDepth := 2 }
    ∃ t u σ₁ σ₂ sid name fields optional,
      (deriveType (.schema (.object 5 wrapped))).exec { withWrapped with settings } = (.ok t, σ₁) ∧
      (outputOfType t).exec σ₁ = (.ok u, σ₂) ∧ u = .shape sid name fields optional ∧
      "near" ∈ optional ∧ "far" ∉ optional ∧ "later" ∈ optional := by
  intro settings
  let object : Schema := .object 5 wrapped
  have compiled : (withWrapped.workshop.scope.compile 2 object).outcome.isOk = true := by cbv
  have built : ((outputOfSchema object).exec { withWrapped with settings }).1.isOk = true := by cbv
  cases compiles : (withWrapped.workshop.scope.compile 2 object).outcome with
  | error failure => rw [compiles] at compiled; cases compiled
  | ok validator =>
    cases builds : (outputOfSchema object).exec { withWrapped with settings } with
    | mk output σ₂ =>
      cases output with
      | error failure => rw [builds] at built; cases built
      | ok u =>
        obtain ⟨t, σ₁, derives, builds⟩ := Stateful.exec_bind_eq_ok builds
        obtain ⟨_, sid, name, fields, optional, _, _, shaped, _, _, agree⟩ :=
          omissible_properties_agree ⟨rfl, rfl⟩ rfl .start (by decide) compiles derives builds
        have decided {k : String} {child : Schema} {absence : Option Kind}
            (hk : wrapped.lookup k = some child)
            (habsence : (withWrapped.workshop.scope.absence 2 child).outcome = .ok absence) :
            k ∈ optional ↔ absence = some .optional := by
          obtain ⟨absence', _, _, habsence', mark, _⟩ := agree k child hk
          obtain rfl := Except.ok.inj (habsence.symm.trans habsence')
          exact mark
        refine ⟨t, u, σ₁, σ₂, sid, name, fields, optional, derives, builds, shaped, ?_, ?_, ?_⟩
        · exact (decided rfl rfl).mpr rfl
        · intro far
          cases (decided rfl rfl).mp far
        · exact (decided rfl rfl).mpr rfl

end Session

end Schemata
