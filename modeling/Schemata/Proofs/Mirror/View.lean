import Schemata.Proofs.Mirror.Describes
import Schemata.Proofs.Mirror.Fields

/-!
# Traversing descriptions

A traversal of a description goes along with the traversal of the schema. Only a lazy type whose
reference nothing derived stands behind leads astray. Where nothing does, a path leads to a type of
the class of the schema that it leads to, or nowhere in both.
-/

namespace Schemata

variable {ρ : Reading} {outer : NodeId → String → Prop}

namespace Describes

theorem schemaClass? (lawful : ρ.Lawful) {s : Schema} {t : StaticType}
    (h : Describes ρ outer s t) : t.schemaClass? = some s.schemaClass := by
  cases h with
  | leaf h => exact lawful.leaf_class h
  | object => rfl
  | composite => rfl
  | reference => rfl
  | target => rfl

theorem kind (lawful : ρ.Lawful) {s : Schema} {t : StaticType} (h : Describes ρ outer s t) :
    s.kind = t.kind := by
  simp only [StaticType.kind, h.schemaClass? lawful, Schema.kind]

/-- A description is no reference by itself. -/
theorem not_isReference (lawful : ρ.Lawful) {s : Schema} {t : StaticType}
    (h : Describes ρ outer s t) : t.isReference = false := by
  have hclass := h.schemaClass? lawful
  cases t <;> first | rfl | cases hclass

end Describes

namespace Names

variable (names : Names)

/-- A lazy type whose reference is not known among the derived types. -/
def Unresolved (t : StaticType) : Prop :=
  ∃ n, t = .schema .lazy (some [.reference n]) ∧ names.derived.lookup n = none

/-- What is derived can be used in every shape, and hides what is declared. -/
theorem lookup_visible (sid : ShapeId) {n : String} {t : StaticType}
    (h : names.derived.lookup n = some t) : (names.visible sid).lookup n = some t := by
  unfold visible seenFrom
  split
  · rw [List.lookup_append, h, Option.some_or]
  · exact h

theorem arg_of_not_isReference {t u : StaticType} {position : Nat}
    (h : t.args[position]? = some u) (hu : u.isReference = false) : names.arg t position = u := by
  unfold arg
  rw [h]
  cases u with
  | reference n => cases hu
  | _ => rfl

theorem arg_reference (c : SchemaClass) (n : String) :
    names.arg (.schema c (some [.reference n])) 0 = (names.derived.lookup n).getD .never := rfl

end Names

/-- A field that is looked up is what replacing its references gives. -/
theorem Describes.evaluate (lawful : ρ.Lawful) {names : Names} {sid : ShapeId}
    {outer' : NodeId → String → Prop} {s : Schema} {t : StaticType} (hst : Describes ρ outer s t)
    (evaluates : Evaluates ρ outer' (names.visible sid) [] s t) :
    Describes ρ outer' s (names.evaluate sid t) := by
  obtain ⟨t', heval, ht'⟩ := evaluates
  have : names.evaluate sid t = t' := by
    simp [Names.evaluate, Names.known_of_not_isReference (hst.not_isReference lawful), heval]
  rw [this]
  exact ht'

/-- A field whose references can be replaced is looked up without a fault. -/
theorem Describes.fault? (lawful : ρ.Lawful) {names : Names} {sid : ShapeId}
    {outer' : NodeId → String → Prop} {s : Schema} {t : StaticType} (hst : Describes ρ outer s t)
    (evaluates : Evaluates ρ outer' (names.visible sid) [] s t) : names.fault? sid t = none := by
  obtain ⟨t', heval, _⟩ := evaluates
  refine Names.fault?_of_evaluateIn (u := t') ?_
  rw [Names.known_of_not_isReference (hst.not_isReference lawful), heval]

/-- What makes a description traversable: `outers` are the readings of outer names that occur, also in
fields that were looked up, and `Lost` holds of the types at which a reference cannot be followed. -/
structure Reading.Traversable (ρ : Reading) (scope : Scope) (names : Names)
    (outers : (NodeId → String → Prop) → Prop) (Lost : StaticType → Prop) : Prop where
  lawful : ρ.Lawful
  looked {sid : ShapeId} {s : Schema} {t : StaticType} : Describes ρ (ρ.refers sid) s t →
    ∃ outer, outers outer ∧ Describes ρ outer s (names.evaluate sid t)
  faultless {sid : ShapeId} {s : Schema} {t : StaticType} : Describes ρ (ρ.refers sid) s t →
    names.fault? sid t = none
  opens {id : NodeId} {s : Schema} : ρ.opens id s → scope.target id = .ok s
  resolved {outer : NodeId → String → Prop} {id : NodeId} {n : String} {t : StaticType} :
    outers outer → outer id n → names.derived.lookup n = some t →
      ∃ s outer', outers outer' ∧ scope.target id = .ok s ∧ Describes ρ outer' s t
  unresolved {outer : NodeId → String → Prop} {id : NodeId} {n : String} :
    outers outer → outer id n → names.derived.lookup n = none →
      Lost (.schema .lazy (some [.reference n]))
  lost {t : StaticType} : Lost t → names.Unresolved t

/-- A description of a schema under one of some readings of outer names. -/
def DescribesUnder (ρ : Reading) (outers : (NodeId → String → Prop) → Prop) (s : Schema)
    (t : StaticType) : Prop :=
  ∃ outer, outers outer ∧ Describes ρ outer s t

namespace Reading.Traversable

variable {scope : Scope} {names : Names} {outers : (NodeId → String → Prop) → Prop}
  {Lost : StaticType → Prop}

theorem inner (h : ρ.Traversable scope names outers Lost) (houter : outers outer) {s : Schema}
    {t : StaticType} (hst : Describes ρ outer s t) (transparent : s.kind.isTransparent = true)
    (found : ¬ Lost t) :
    Related (DescribesUnder ρ outers) (s.innerOf scope) (.ok (names.innerOf t)) := by
  -- A wrapper and a pipe have what is behind them as a parameter. Behind a lazy schema it stands
  -- under its name, or in its place where a declared type was given to the target itself.
  rcases Schema.eq_of_isTransparent transparent with
    ⟨id, w, inner, rfl⟩ | ⟨id, rfl⟩ | ⟨id, input, output, rfl⟩
  · cases hst with
    | composite _ hts =>
      obtain ⟨t, rfl, ht⟩ := hts.singleton
      have harg : names.innerOf (.schema w.schemaClass (some [t])) = t := by
        have : names.arg (.schema w.schemaClass (some [t])) 0 = t :=
          names.arg_of_not_isReference rfl (ht.not_isReference h.lawful)
        cases w <;> exact this
      exact .ok ⟨outer, houter, harg.symm ▸ ht⟩
  · have hinner : Schema.innerOf scope (.lazy id) = scope.target id := rfl
    rw [hinner]
    cases hst with
    | composite hs => cases hs
    | @reference _ _ n hn =>
      cases hlookup : names.derived.lookup n with
      | none => exact absurd (h.unresolved houter hn hlookup) found
      | some u =>
        obtain ⟨s, outer', houter', htarget, hu⟩ := h.resolved houter hn hlookup
        have harg : names.innerOf (.schema .lazy (some [.reference n])) = u := by
          change names.arg (.schema .lazy (some [.reference n])) 0 = u
          rw [names.arg_reference, hlookup]
          rfl
        rw [htarget, harg]
        exact .ok ⟨outer', houter', hu⟩
    | @target _ _ s u hopens hu =>
      have harg : names.innerOf (.schema .lazy (some [u])) = u :=
        names.arg_of_not_isReference rfl (hu.not_isReference h.lawful)
      rw [h.opens hopens, harg]
      exact .ok ⟨outer, houter, hu⟩
  · cases hst with
    | composite _ hts =>
      obtain ⟨t, u, rfl, _, hu⟩ := hts.pair
      have harg : names.innerOf (.schema .pipe (some [t, u])) = u :=
        names.arg_of_not_isReference rfl (hu.not_isReference h.lawful)
      exact .ok ⟨outer, houter, harg.symm ▸ hu⟩

/-- The fields that describe properties are looked up without faults. -/
theorem faultless_fields (h : ρ.Traversable scope names outers Lost) {sid : ShapeId}
    {ss : List Schema} {fields : List (String × StaticType)}
    (hfields : DescribesAll ρ (ρ.refers sid) ss (fields.map (·.2))) :
    ∀ field ∈ fields, names.fault? sid field.2 = none := by
  intro field hfield
  obtain ⟨_, _, described⟩ := exists_left_of_forall₂ hfields.forall₂ (List.mem_map_of_mem hfield)
  exact h.faultless described

theorem lookup_rel (h : ρ.Traversable scope names outers Lost) {sid : ShapeId} (name : String)
    {shape : List (String × Schema)} {fields : List (String × StaticType)}
    (hnames : shape.map (·.1) = fields.map (·.1))
    (hfields : DescribesAll ρ (ρ.refers sid) (shape.map (·.2)) (fields.map (·.2))) :
    Option.Rel (DescribesUnder ρ outers) (shape.lookup name)
      ((fields.lookup name).map (names.evaluate sid)) := by
  induction shape generalizing fields with
  | nil =>
    cases fields with
    | nil => exact .none
    | cons => cases hnames
  | cons property shape ih =>
    cases fields with
    | nil => cases hnames
    | cons field fields =>
      obtain ⟨m, s⟩ := property
      obtain ⟨m', t⟩ := field
      simp only [List.map_cons, List.cons.injEq] at hnames
      obtain ⟨rfl, hnames⟩ := hnames
      cases hfields with
      | cons hst hrest =>
        simp only [List.lookup_cons]
        by_cases heq : name = m
        · subst heq
          simp only [beq_self_eq_true, Option.map_some]
          exact .some (h.looked hst)
        · rw [beq_false_of_ne heq]
          exact ih hnames hrest

/-- A traversal of a description simulates the traversal of the schema. -/
theorem simulation (h : ρ.Traversable scope names outers Lost) :
    View.Simulation scope.view names.view (DescribesUnder ρ outers) Lost where
  kind := by
    rintro s t ⟨outer, _, hst⟩
    exact hst.kind h.lawful
  inner := by
    rintro s t ⟨outer, houter, hst⟩ transparent found
    exact h.inner houter hst transparent found
  lost := by
    rintro s t _ lost
    obtain ⟨n, rfl, hn⟩ := h.lost lost
    refine ⟨.never, ?_, rfl⟩
    change Except.ok (names.arg (.schema .lazy (some [.reference n])) 0) = _
    rw [names.arg_reference, hn]
    rfl
  property := by
    rintro s t name ⟨outer, _, hst⟩ object
    obtain ⟨id, shape, rfl⟩ := Schema.eq_object_of_kind object
    cases hst with
    | @object _ _ shape sid _ fields _ _ hnames hfields =>
      change Related _ (.ok (shape.lookup name)) (names.fieldOf? sid fields name)
      rw [Names.fieldOf?_of_fault? (h.faultless_fields hfields)]
      exact .ok (h.lookup_rel name hnames hfields)
    | composite hs => cases hs
  element := by
    rintro s t ⟨outer, houter, hst⟩ array
    obtain ⟨id, element, rfl⟩ := Schema.eq_array_of_kind array
    cases hst with
    | composite _ hts =>
      obtain ⟨t, rfl, ht⟩ := hts.singleton
      have harg : names.arg (.schema .array (some [t])) 0 = t :=
        names.arg_of_not_isReference rfl (ht.not_isReference h.lawful)
      exact .ok ⟨outer, houter, harg.symm ▸ ht⟩
  value := by
    rintro s t ⟨outer, houter, hst⟩ record
    obtain ⟨id, key, value, rfl⟩ := Schema.eq_record_of_kind record
    cases hst with
    | composite _ hts =>
      obtain ⟨t, u, rfl, _, hu⟩ := hts.pair
      have harg : names.arg (.schema .record (some [t, u])) 1 = u :=
        names.arg_of_not_isReference rfl (hu.not_isReference h.lawful)
      exact .ok ⟨outer, houter, harg.symm ▸ hu⟩
  items := by
    rintro s t ⟨outer, houter, hst⟩ tuple
    obtain ⟨id, items, rfl⟩ := Schema.eq_tuple_of_kind tuple
    cases hst with
    | composite _ hts => exact .ok (hts.forall₂.imp fun _ _ hst => ⟨outer, houter, hst⟩)
  options := by
    rintro s t ⟨outer, houter, hst⟩ union
    obtain ⟨id, options, rfl⟩ := Schema.eq_union_of_kind union
    cases hst with
    | composite _ hts => exact .ok (hts.forall₂.imp fun _ _ hst => ⟨outer, houter, hst⟩)

end Reading.Traversable

/-! ## Paths -/

/-- What a path through a schema and the same path through a type come to, if the two agree. -/
inductive Mirrors : Except Failure Schema → Except Failure StaticType → Prop
  | arrives {s : Schema} {t : StaticType} : t.schemaClass? = some s.schemaClass →
    Mirrors (.ok s) (.ok t)
  | nowhere {failure : Failure} : failure.isPathFailure = true → Mirrors (.error failure) (.ok .never)
  | fails {failure : Failure} : failure.isPathFailure = false →
    Mirrors (.error failure) (.error failure)

namespace Mirrors

variable {x : Except Failure Schema} {y : Except Failure StaticType}

theorem never_iff (h : Mirrors x y) :
    y = .ok .never ↔ ∃ failure, x = .error failure ∧ failure.isPathFailure = true := by
  cases h with
  | @arrives s t hclass =>
    constructor
    · rintro ⟨⟩
      cases hclass
    · rintro ⟨failure, h, _⟩
      cases h
  | nowhere hpath => exact ⟨fun _ => ⟨_, rfl, hpath⟩, fun _ => rfl⟩
  | fails hother =>
    constructor
    · rintro ⟨⟩
    · rintro ⟨failure, h, hpath⟩
      cases h
      rw [hother] at hpath
      cases hpath

theorem schemaClass? (h : Mirrors x y) {s : Schema} (hs : x = .ok s) :
    ∃ t, y = .ok t ∧ t.schemaClass? = some s.schemaClass := by
  cases h with
  | arrives hclass => cases hs; exact ⟨_, rfl, hclass⟩
  | nowhere => cases hs
  | fails => cases hs

theorem error_iff (h : Mirrors x y) {failure : Failure} (hother : failure.isPathFailure = false) :
    y = .error failure ↔ x = .error failure := by
  cases h with
  | arrives => simp
  | nowhere hpath =>
    constructor
    · rintro ⟨⟩
    · rintro ⟨⟩
      rw [hpath] at hother
      cases hother
  | fails => simp

end Mirrors

namespace Names

variable (names : Names) {limit : Nat} {path : PathArgument} {t : StaticType}

/-- What a path that leads to a type or fails comes to. -/
def reached : Except Failure StaticType → Except Failure StaticType
  | .ok t => .ok t
  | .error failure => if failure.isPathFailure then .ok .never else .error failure

/-- The types that a path looks behind. -/
def entered (limit : Nat) (t : StaticType) (path : PathArgument) : List StaticType :=
  match path.coerce with
  | .error _ => []
  | .ok (text, pieces) => (names.view.walkPieces limit text t pieces).entered

theorem typeAt_of_coerce_error {failure : Failure} (h : path.coerce = .error failure) :
    names.typeAt limit t path = reached (.error failure) := by
  unfold typeAt
  rw [h]
  rfl

theorem typeAt_of_coerce_ok {text : String} {pieces : List Piece}
    (h : path.coerce = .ok (text, pieces)) :
    names.typeAt limit t path = reached (names.view.walkPieces limit text t pieces).outcome := by
  unfold typeAt reached
  rw [h]
  rfl

end Names

namespace Reading.Traversable

variable {ρ : Reading} {scope : Scope} {names : Names} {outers : (NodeId → String → Prop) → Prop}
  {Lost : StaticType → Prop}

/-- A path through a description leads to a description of what the path through the schema leads to,
or fails as that path does, unless it looks behind a lost type and leads nowhere. -/
theorem leads (h : ρ.Traversable scope names outers Lost) {outer : NodeId → String → Prop}
    (houter : outers outer) {s : Schema} {t : StaticType} (hst : Describes ρ outer s t)
    (limit : Nat) (path : PathArgument) :
    ((∀ u ∈ names.entered limit t path, ¬ Lost u) ∧
        ∃ found, names.typeAt limit t path = Names.reached found ∧
          Related (DescribesUnder ρ outers) (scope.resolve limit s path).outcome found) ∨
      (∃ u ∈ names.entered limit t path, Lost u) ∧ names.typeAt limit t path = .ok .never := by
  unfold Scope.resolve Names.entered
  cases hcoerce : path.coerce with
  | error failure =>
    refine .inl ⟨fun _ hu => absurd hu List.not_mem_nil, _, ?_, .error failure⟩
    exact names.typeAt_of_coerce_error hcoerce
  | ok coerced =>
    obtain ⟨text, pieces⟩ := coerced
    rw [names.typeAt_of_coerce_ok hcoerce]
    have proper := PathArgument.other_notMem_of_coerce hcoerce
    simp only [Trail.filterMap]
    cases h.simulation.walkPieces limit text ⟨outer, houter, hst⟩ proper with
    | astray lost fails =>
      obtain ⟨failure, hfailure, hpath⟩ := fails
      refine .inr ⟨lost, ?_⟩
      rw [hfailure]
      simp only [Names.reached, hpath, if_true]
    | together clear same => exact .inl ⟨clear, _, rfl, same⟩

/-- A path through a description mirrors the path through the schema, or it looks behind a lost type
and leads nowhere. -/
theorem follows (h : ρ.Traversable scope names outers Lost) {outer : NodeId → String → Prop}
    (houter : outers outer) {s : Schema} {t : StaticType} (hst : Describes ρ outer s t)
    (limit : Nat) (path : PathArgument) :
    ((∀ u ∈ names.entered limit t path, ¬ Lost u) ∧
        Mirrors (scope.resolve limit s path).outcome (names.typeAt limit t path)) ∨
      (∃ u ∈ names.entered limit t path, Lost u) ∧ names.typeAt limit t path = .ok .never := by
  rcases h.leads houter hst limit path with ⟨clear, found, heq, related⟩ | astray
  · refine .inl ⟨clear, ?_⟩
    rw [heq]
    generalize (scope.resolve limit s path).outcome = x at related ⊢
    cases related with
    | ok described =>
      obtain ⟨_, _, hdescribes⟩ := described
      exact .arrives (hdescribes.schemaClass? h.lawful)
    | error failure =>
      cases hpath : failure.isPathFailure with
      | true =>
        simp only [Names.reached, hpath]
        exact .nowhere hpath
      | false =>
        simp only [Names.reached, hpath]
        exact .fails hpath
  · exact .inr astray

end Reading.Traversable

end Schemata
