import Mathlib
import Schemata.Proofs.Compilation.Success
import Schemata.Proofs.Validation.Renumbering

/-!
# Objects property by property

An object checks each of its properties as the schema of the property checks it by itself, although
all of them are compiled together and share definitions. What is compiled together shows in the
labels of choices only. A property that is absent is left out, has absence itself checked, or is
refused, as the schema of the property decides.
-/

namespace Schemata

/-- A failure of validation as it is reported from one level further out. -/
def Failure.below (step : Place) : Failure → Failure
  | .invalid issues => .invalid (issues.map (·.under step))
  | failure => failure

namespace Scope

section

variable (scope : Scope) (limit : Nat)

/-- Compile a schema and validate a value with it. -/
def parse (s : Schema) (v : Value) : Except Failure Value := do
  let validator ← (scope.compile limit s).outcome
  validator.validate v

/-- What the entries of a dictionary come to for one property, if nothing else is validated: the
value for it if there is one, or nothing if it is left out. -/
def property (given : List (Value × Value)) (name : String) (s : Schema) :
    Except Failure (Option Value) :=
  let checked (v : Value) := ((scope.parse limit s v).map some).mapError (.below (.key name))
  match entry? name given with
  | some v => checked v
  | none => do
    match ← (scope.absence limit s).outcome with
    | some .default => checked .missing
    | some _ => .ok none
    | none => .error (.invalid [(Issue.here .missing (.dict given)).under (.key name)])

end

/-- The schema stands for a default, through nothing but read-only schemas and unions of one option. -/
inductive StandsForDefault : Schema → Prop
  | default {id : NodeId} {value : Value} {inner : Schema} :
    StandsForDefault (.wrapper id (.default value) inner)
  | readonly {id : NodeId} {inner : Schema} : StandsForDefault inner →
    StandsForDefault (.wrapper id .readonly inner)
  | alone {id : NodeId} {option : Schema} : StandsForDefault option →
    StandsForDefault (.union id [option])

variable {scope : Scope} {limit budget : Nat} {s t : Schema} {name : String}
  {given : List (Value × Value)}

/-! ## Absence -/

theorem force_succ (h : (scope.force limit budget s).outcome = .ok t) :
    (scope.force limit (budget + 1) s).outcome = .ok t := by
  induction budget generalizing s with
  | zero => cases h
  | succ budget ih =>
    cases s with
    | lazy id =>
      obtain ⟨u, hu, h⟩ := exists_of_ask h
      simpa [force, hu] using ih h
    | _ => exact h

/-- What a lazy schema stands for can be compiled if the lazy schema can. -/
theorem Compilable.target {id : NodeId} (h : scope.Compilable limit (.lazy id)) :
    ∃ s, scope.target id = .ok s ∧ scope.Compilable limit s := by
  obtain ⟨t, forced⟩ := h _ .refl
  have behind : scope.Compilable limit t := h.of_builds (.single (.target forced))
  cases limit with
  | zero => cases forced
  | succ limit =>
    obtain ⟨s, hs, forced'⟩ := exists_of_ask forced
    refine ⟨s, hs, ?_⟩
    cases s with
    | lazy id' =>
      have next := force_succ forced'
      intro u builds
      rcases Relation.ReflTransGen.cases_head builds with rfl | ⟨w, step, builds⟩
      · exact ⟨t, next⟩
      · cases step with
        | child hmem => cases hmem
        | target forced'' =>
          obtain rfl := Except.ok.inj (next.symm.trans forced'')
          exact behind u builds
    | _ =>
      cases limit with
      | zero => cases forced'
      | succ limit =>
        cases forced'
        exact behind

/-- Whether a property may be absent is decided for every schema that can be compiled. -/
theorem Compilable.exists_absence (h : scope.Compilable limit s) (budget : Nat) :
    ∃ kind, (scope.absence budget s).outcome = .ok kind := by
  induction budget generalizing s with
  | zero => exact ⟨none, rfl⟩
  | succ budget ih =>
    cases s with
    | wrapper id w inner =>
      cases w with
      | optional => exact ⟨_, rfl⟩
      | default => exact ⟨_, rfl⟩
      | nullable | readonly => exact ih (h.child (Schema.inner_mem_children _ _ inner))
    | lazy id =>
      obtain ⟨s, hs, compilable⟩ := h.target
      obtain ⟨kind, hkind⟩ := ih compilable
      exact ⟨kind, by simpa [absence, hs] using hkind⟩
    | pipe id input output => exact ih (h.child List.mem_cons_self)
    | _ => exact ⟨_, rfl⟩

/-- An object can be compiled if its properties can. -/
theorem compilable_object {id : NodeId} {shape : List (String × Schema)}
    (h : ∀ property ∈ shape, scope.Compilable limit property.2) :
    scope.Compilable limit (.object id shape) := by
  intro u builds
  rcases Relation.ReflTransGen.cases_head builds with rfl | ⟨w, step, builds⟩
  · exact fun property hproperty => (h property hproperty).exists_absence limit
  · cases step with
    | child hmem =>
      obtain ⟨property, hproperty, rfl⟩ := List.mem_map.mp hmem
      exact h property hproperty u builds

theorem StandsForDefault.absence_ne (h : StandsForDefault s) :
    (scope.absence budget s).outcome ≠ .ok (some .optional) := by
  induction h generalizing budget with
  | default => cases budget <;> exact fun h => by cases h
  | readonly _ ih =>
    cases budget with
    | zero => exact fun h => by cases h
    | succ budget => exact ih
  | alone => cases budget <;> exact fun h => by cases h

/-- A plan supplies a value only for what stands for a default. -/
theorem Plans.supply?_eq_none {number : NodeId → Nat → Prop} {p : Plan}
    (hp : scope.Plans limit number s p) (h : ¬ StandsForDefault s) : p.supply? = none := by
  induction s using Schema.children_induction generalizing p with
  | h s ih =>
    cases hp with
    | @leaf id l p hp =>
      cases l with
      | base => exact (planOfLeaf_base_ne hp).elim
      | _ => exact Compilation.pure_inj hp ▸ rfl
    | @wrapper id w inner p hp =>
      cases w with
      | default => exact absurd .default h
      | readonly =>
        exact ih inner (Schema.inner_mem_children _ _ inner) hp fun inside => h (.readonly inside)
      | _ => rfl
    | union hps =>
      cases hps with
      | nil => rfl
      | cons hp hps =>
        cases hps with
        | nil =>
          rw [Plan.supply?_union_singleton]
          exact ih _ (List.mem_singleton.mpr rfl) hp fun inside => h (.alone inside)
        | cons => rfl
    | _ => rfl

/-! ## One property -/

/-- A verdict on one property of an object is what is found for the property by itself, but for the
labels of choices. -/
inductive ComesTo (L : String → String → Prop) :
    Verdict (Option Value × Nat) → Except Failure (Option Value) → Prop
  | accepted {value : Option Value} {n : Nat} {st : Standing} :
    ComesTo L (.accepted (value, n) st) (.ok value)
  | refused {own issues : List Issue} : IssuesAlike L own issues →
    ComesTo L (.refused issues) (.error (.invalid own))
  | failed {failure : Failure} : (∀ issues, failure ≠ .invalid issues) →
    ComesTo L (.failed failure) (.error failure)

theorem comesTo_of_matches {L : String → String → Prop} {R : Standing → Standing → Prop}
    {v w : Verdict Value} (h : v.Matches True L R w) (name : String) (n : Nat) :
    ComesTo L ((w.under (.key name)).map fun result => (some result, n))
      ((v.toExcept.map some).mapError (.below (.key name))) := by
  cases h with
  | accepted => exact .accepted
  | refused alike => exact .refused (alike.under (.same _))
  | @failed failure other =>
    have same : failure.below (.key name) = failure := by
      cases failure with
      | invalid issues => exact absurd rfl (other issues)
      | _ => rfl
    have outcome : (((Verdict.failed failure : Verdict Value).toExcept.map some).mapError
        (Failure.below (.key name)) : Except Failure (Option Value)) = .error failure :=
      congrArg Except.error same
    rw [outcome]
    exact .failed other
  | unlike partly _ => exact absurd trivial partly

variable {root : Schema} {d : Draft} {plan p : Plan} {validator : Validator}

/-- What the plan of a schema gives among other plans, it gives by itself. -/
theorem Finished.exists_matches (h : scope.Finished limit root d plan)
    (hp : scope.Plans limit d.Numbers s p)
    (compiled : (scope.compile limit s).outcome = .ok validator) (v : Value) (st : Standing) :
    ∃ own : Verdict Value, own.toExcept = scope.parse limit s v ∧
      own.Matches True (scope.SameOption limit s) (fun _ _ => True)
        (p.check d.definitions Validator.referenceLimit d.definitions [] v st) := by
  obtain ⟨d', hdefinitions, finished⟩ := compile_finished compiled
  have alike := finished.check_matches h (Nat.le_refl Validator.referenceLimit)
    (fun _ : True => rfl) .root .root (.inl trivial) finished.plans hp
  refine ⟨validator.root.check d'.definitions Validator.referenceLimit d'.definitions [] v .initial,
    ?_, alike (.nil d' d) Standing.congruence_true v trivial⟩
  rw [parse, compiled, ← hdefinitions]
  rfl

theorem Finished.comesTo (h : scope.Finished limit root d plan)
    (hp : scope.Plans limit d.Numbers s p)
    (compiled : (scope.compile limit s).outcome = .ok validator) (name : String) (n : Nat)
    (v : Value) (st : Standing) :
    ComesTo (scope.SameOption limit s)
      (((p.check d.definitions Validator.referenceLimit d.definitions [] v st).under
          (.key name)).map
        fun result => (some result, n))
      (((scope.parse limit s v).map some).mapError (.below (.key name))) := by
  obtain ⟨own, parsed, alike⟩ := h.exists_matches hp compiled v st
  rw [← parsed]
  exact comesTo_of_matches alike name n

/-- The check of a property among the properties of an object. -/
theorem Finished.property_comesTo (h : scope.Finished limit root d plan)
    (hp : scope.Plans limit d.Numbers s p) {absence : Option Kind}
    (decided : (scope.absence limit s).outcome = .ok absence)
    (compiled : (scope.compile limit s).outcome = .ok validator)
    (plain : entry? name given = none → (scope.absence limit s).outcome = .ok none →
      ¬ StandsForDefault s) (st : Standing) :
    let field := fieldOf name s p absence
    let check : Check.FieldCheck :=
      { name := field.name, required := field.required, supply? := field.plan.supply?
        check := field.plan.check d.definitions Validator.referenceLimit d.definitions }
    ComesTo (scope.SameOption limit s) (check.run (.dict given) given st)
      (scope.property limit given name s) := by
  intro field check
  have checked := h.comesTo hp compiled name
  have checks : check.check = p.check d.definitions Validator.referenceLimit d.definitions :=
    check_fieldOf name s p absence d.definitions Validator.referenceLimit d.definitions
  have named : check.name = name := fieldOf_name name s p absence
  unfold Check.FieldCheck.run property
  rw [named, checks]
  cases found : entry? name given with
  | some v => exact checked 1 v st
  | none =>
    simp only [decided]
    cases absence with
    | none =>
      have unsupplied : check.supply? = none := hp.supply?_eq_none (plain found decided)
      rw [unsupplied]
      exact .refused (.refl _)
    | some kind =>
      rcases absence_cases decided with rfl | rfl
      · have unsupplied : check.supply? = none :=
          hp.supply?_eq_none fun standing => standing.absence_ne decided
        rw [unsupplied]
        exact .accepted
      · cases allowed : s.kind.allowsAbsence with
        | false =>
          have supplied : check.supply? = some .absence := by
            simp only [check, field, fieldOf, allowed]
            rfl
          rw [supplied]
          exact checked 0 .missing st
        | true =>
          -- The default is the outermost schema, so its value is taken as it is, and absence itself
          -- would have been turned into the same value.
          obtain ⟨id, value, inner, rfl⟩ := eq_default_of_absence decided allowed
          cases hp with
          | @wrapper _ _ _ q =>
            have supplied : check.supply? = some (.copy value) := by
              simp only [check, field, fieldOf, allowed]
              rfl
            have absent : (planOfWrapper (.default value) q).check d.definitions
                Validator.referenceLimit d.definitions [] .missing st = .accepted value st := by
              rw [planOfWrapper, Plan.check, Plan.check]
              rfl
            rw [supplied]
            have taken := checked 0 .missing st
            rw [absent] at taken
            exact taken

/-! ## All properties -/

theorem Unionless.not_sameOption (h : scope.Unionless limit s) (label label' : String) :
    ¬ scope.SameOption limit s label label' := by
  rintro ⟨t, ⟨u, builds, union, _⟩, _⟩
  exact h u builds union

theorem issuesAlike_eq {L : String → String → Prop} (h : ∀ label label', ¬ L label label')
    {issues issues' : List Issue} (alike : IssuesAlike L issues issues') : issues' = issues := by
  induction alike with
  | nil => rfl
  | @cons issue issue' _ _ first _ ih =>
    have places : issue'.place = issue.place := by
      have := first.place
      generalize issue.place = place, issue'.place = place' at this
      induction this with
      | nil => rfl
      | cons step _ ih =>
        cases step with
        | same => rw [ih]
        | label different => exact absurd different (h _ _)
    obtain ⟨complaint, place, input⟩ := issue
    obtain ⟨complaint', place', input'⟩ := issue'
    obtain rfl : complaint' = complaint := first.complaint
    obtain rfl : input' = input := first.input
    obtain rfl : place' = place := places
    rw [ih]

/-- What an object reports of a property: nothing if the property is found to be valid by itself, and
otherwise the issues that are found, where only labels of options may differ. -/
inductive Reports (scope : Scope) (limit : Nat) (s : Schema) :
    Except Failure (Option Value) → List Issue → Prop
  | nothing {value : Option Value} : Reports scope limit s (.ok value) []
  | issues {own issues : List Issue} : IssuesAlike (scope.SameOption limit s) own issues →
    (scope.Unionless limit s → issues = own) →
    Reports scope limit s (.error (.invalid own)) issues

/-- The entries for the properties of a shape that have a value. -/
def made (shape : List (String × Schema)) (values : List (Option Value)) : List (Value × Value) :=
  (shape.zip values).filterMap fun (property, value) => value.map (Value.str property.1, ·)

@[simp]
theorem made_cons (property : String × Schema) (shape : List (String × Schema))
    (value : Option Value) (values : List (Option Value)) (n m : Nat) :
    Check.consField property.1 (value, n) (made shape values, m)
      = (made (property :: shape) (value :: values), n + m) := by
  cases value <;> rfl

/-- Properties that are checked in order come to what is found for each of them by itself: either all
are valid and nothing is reported, or the reports of all are put together. -/
theorem fields_comeTo {container : Value} {found : String × Schema → Except Failure (Option Value)}
    {checks : List Check.FieldCheck} {shape : List (String × Schema)}
    (h : List.Forall₂ (fun check property => check.name = property.1 ∧ ∀ st,
      ComesTo (scope.SameOption limit property.2) (check.run container given st) (found property))
      checks shape)
    (clean : ∀ property ∈ shape, ∀ failure, found property = .error failure →
      ∃ issues, failure = .invalid issues) (st : Standing) :
    ∃ parts, List.Forall₂ (fun property part => scope.Reports limit property.2 (found property) part)
        shape parts ∧
      ((∃ values n st', Check.fields container given checks st
            = .accepted (made shape values, n) st' ∧
          List.Forall₂ (fun property value => found property = .ok value) shape values ∧
          parts.flatten = []) ∨
        (Check.fields container given checks st = .refused parts.flatten ∧
          ∃ property ∈ shape, ∃ failure, found property = .error failure)) := by
  -- what a verdict leaves behind is where the next property starts, so this is for every standing
  induction h generalizing st with
  | nil => exact ⟨[], .nil, .inl ⟨[], 0, st, rfl, .nil, rfl⟩⟩
  | @cons check property checks shape hfirst _ ih =>
    obtain ⟨named, comes⟩ := hfirst
    have rest := ih fun property hproperty => clean property (List.mem_cons_of_mem _ hproperty)
    have first := comes st
    have own := clean property List.mem_cons_self
    rw [Check.fields, named]
    generalize check.run container given st = verdict, hfound : found property = outcome at first own
    cases first with
    | @accepted value n st₁ =>
      obtain ⟨parts, reports, ⟨values, m, st', accepted, valid, none⟩ | ⟨refused, invalid⟩⟩ := rest st₁
      · refine ⟨[] :: parts, .cons (hfound ▸ .nothing) reports,
          .inl ⟨value :: values, n + m, st', ?_, .cons hfound valid, none⟩⟩
        simp [Verdict.both, accepted, Verdict.map]
      · refine ⟨[] :: parts, .cons (hfound ▸ .nothing) reports, .inr ⟨?_, ?_⟩⟩
        · simp only [Verdict.both, refused, Verdict.map]
          rfl
        · obtain ⟨property, hproperty, invalid⟩ := invalid
          exact ⟨property, List.mem_cons_of_mem _ hproperty, invalid⟩
    | @refused own issues alike =>
      have reported : scope.Reports limit property.2 (found property) issues := by
        rw [hfound]
        exact .issues alike fun unionless => issuesAlike_eq unionless.not_sameOption alike
      have invalid : ∃ property' ∈ property :: shape, ∃ failure, found property' = .error failure :=
        ⟨property, List.mem_cons_self, _, hfound⟩
      obtain ⟨parts, reports, ⟨values, m, st', accepted, _, none⟩ | ⟨refused, _⟩⟩ := rest st
      · refine ⟨issues :: parts, .cons reported reports, .inr ⟨?_, invalid⟩⟩
        rw [List.flatten_cons, none, List.append_nil]
        simp only [Verdict.both, accepted]
      · refine ⟨issues :: parts, .cons reported reports, .inr ⟨?_, invalid⟩⟩
        simp only [Verdict.both, refused]
        rfl
    | failed other =>
      obtain ⟨issues, rfl⟩ := own _ rfl
      exact absurd rfl (other issues)

/-- The checks of the properties of an object, each with what is found for it by itself. -/
theorem Finished.fieldChecks_comeTo (h : scope.Finished limit root d plan)
    {shape : List (String × Schema)} {fields : List (Field Plan)}
    (hfields : scope.PlansShape limit d.Numbers shape fields)
    (children : ∀ property ∈ shape, ∃ v, (scope.compile limit property.2).outcome = .ok v)
    (plain : ∀ property ∈ shape, entry? property.1 given = none →
      (scope.absence limit property.2).outcome = .ok none → ¬ StandsForDefault property.2) :
    List.Forall₂ (fun check property => check.name = property.1 ∧ ∀ st,
        ComesTo (scope.SameOption limit property.2) (check.run (.dict given) given st)
          (scope.property limit given property.1 property.2))
      (Plan.fieldChecks d.definitions Validator.referenceLimit d.definitions fields) shape := by
  induction shape generalizing fields with
  | nil =>
    cases hfields
    rw [Plan.fieldChecks]
    exact .nil
  | cons property shape ih =>
    obtain _ | ⟨hp, decided, hfields⟩ := hfields
    obtain ⟨_, compiled⟩ := children _ List.mem_cons_self
    rw [Plan.fieldChecks_cons]
    refine .cons ⟨fieldOf_name .., fun st =>
      h.property_comesTo hp decided compiled (plain _ List.mem_cons_self) st⟩ ?_
    exact ih hfields
      (fun property hproperty => children property (List.mem_cons_of_mem _ hproperty))
      (fun property hproperty => plain property (List.mem_cons_of_mem _ hproperty))

/-- An object whose properties can be compiled is validated by the checks of its fields. -/
theorem parse_object {id : NodeId} {shape : List (String × Schema)}
    (children : ∀ property ∈ shape, ∃ v, (scope.compile limit property.2).outcome = .ok v) :
    ∃ d fields, scope.Finished limit (.object id shape) d (.object fields) ∧
      scope.PlansShape limit d.Numbers shape fields ∧
      ∀ given, scope.parse limit (.object id shape) (.dict given)
        = ((Check.fields (.dict given) given
            (Plan.fieldChecks d.definitions Validator.referenceLimit d.definitions fields)
            .initial).andThen
          fun (entries, count) st => .accepted (.dict entries) (st.addFields count)).toExcept := by
  have compilable : scope.Compilable limit (.object id shape) := compilable_object fun property h =>
    compile_isOk_iff.mp (children property h)
  obtain ⟨⟨root, definitions⟩, compiled⟩ := compile_isOk_iff.mpr compilable
  obtain ⟨d, rfl, finished⟩ := compile_finished compiled
  cases finished.plans with
  | @object _ _ fields hfields =>
    refine ⟨d, fields, finished, hfields, fun given => ?_⟩
    simp only [parse, compiled]
    change Validator.validate _ _ = _
    rw [Validator.validate, Validator.run, Plan.check]
    rfl

/-- If a property fails, then there are no values for all of them. -/
theorem not_all_valid {found : String × Schema → Except Failure (Option Value)}
    {shape : List (String × Schema)} {property : String × Schema} {failure : Failure}
    {values : List (Option Value)} (hproperty : property ∈ shape)
    (fails : found property = .error failure) :
    ¬ List.Forall₂ (fun property value => found property = .ok value) shape values := by
  intro valid
  obtain ⟨value, _, succeeds⟩ := exists_right_of_forall₂ valid hproperty
  cases fails.symm.trans succeeds

/-- The properties of an object are validated one by one, each as by itself: a value that is given
as the schema of the property validates it, and absence as that schema decides. The object is valid
just when all of them are, and then its result has the entries that they come to, in their order, and
no others. Otherwise the issues with all of them are reported, each under the name of its property,
where the labels of options may differ if there are unions. Nothing is said about objects that lack a
property which has to be given and yet stands for a default. -/
theorem object_validates_fieldwise {id : NodeId} {shape : List (String × Schema)}
    {given : List (Value × Value)}
    (children : ∀ property ∈ shape, ∃ v, (scope.compile limit property.2).outcome = .ok v)
    (clean : ∀ property ∈ shape, ∀ failure,
      scope.property limit given property.1 property.2 = .error failure →
        ∃ issues, failure = .invalid issues)
    (plain : ∀ property ∈ shape, entry? property.1 given = none →
      (scope.absence limit property.2).outcome = .ok none → ¬ StandsForDefault property.2) :
    let found (property : String × Schema) := scope.property limit given property.1 property.2
    let parsed := scope.parse limit (.object id shape) (.dict given)
    (∀ r, parsed = .ok r ↔ ∃ values,
      List.Forall₂ (fun property value => found property = .ok value) shape values ∧
        r = .dict (made shape values)) ∧
    ((∃ property ∈ shape, ∃ failure, found property = .error failure) →
      ∃ parts, parsed = .error (.invalid parts.flatten) ∧
        List.Forall₂ (fun property part => scope.Reports limit property.2 (found property) part)
          shape parts) := by
  intro found parsed
  obtain ⟨d, fields, finished, hfields, run⟩ := parse_object children
  have run : parsed = _ := run given
  obtain ⟨parts, reports, ⟨values, n, st, accepted, valid, _⟩ | ⟨refused, property, hproperty, failure,
      fails⟩⟩ := fields_comeTo (finished.fieldChecks_comeTo hfields children plain) clean .initial
  · have result : parsed = .ok (.dict (made shape values)) := by
      rw [run, accepted]
      rfl
    refine ⟨fun r => ⟨fun h => ⟨values, valid, Except.ok.inj (h.symm.trans result)⟩, ?_⟩, ?_⟩
    · rintro ⟨values', valid', rfl⟩
      have unique : values' = values :=
        List.right_unique_forall₂' (fun _ _ _ h h' => Except.ok.inj (h.symm.trans h')) valid' valid
      rw [result, unique]
    · rintro ⟨property, hproperty, failure, fails⟩
      exact absurd valid (not_all_valid hproperty fails)
  · have result : parsed = .error (.invalid parts.flatten) := by
      rw [run, refused]
      rfl
    refine ⟨fun r => ⟨fun h => ?_, ?_⟩, fun _ => ⟨parts, result, reports⟩⟩
    · rw [result] at h
      cases h
    · rintro ⟨values, valid, _⟩
      exact absurd valid (not_all_valid hproperty fails)

/-! ## Profiles -/

/-- A scope without lazy schemas. -/
def withNothing : Scope :=
  { defs := [], getters := [] }

/-- A text may be missing from a profile in three ways: not at all, without consequence, or with a
default behind a nullable schema. -/
def profile : Schema :=
  .object 0 [("name", .leaf 1 (.string true)),
    ("nick", .wrapper 2 .optional (.leaf 3 (.string true))),
    ("role", .wrapper 4 .nullable (.wrapper 5 (.default (.str "guest")) (.leaf 6 (.string true))))]

/-- The nick is left out, the role is filled in, and what does not belong to a profile is dropped. -/
theorem profile_validates_fieldwise :
    withNothing.parse 64 profile (.dict [(.str "extra", .int 0), (.str "name", .str "ann")])
      = .ok (.dict [(.str "name", .str "ann"), (.str "role", .str "guest")]) := by
  let given : List (Value × Value) := [(.str "extra", .int 0), (.str "name", .str "ann")]
  have name : withNothing.property 64 given "name" (.leaf 1 (.string true))
      = .ok (some (.str "ann")) := by cbv
  have nick : withNothing.property 64 given "nick" (.wrapper 2 .optional (.leaf 3 (.string true)))
      = .ok none := by cbv
  have role : withNothing.property 64 given "role"
      (.wrapper 4 .nullable (.wrapper 5 (.default (.str "guest")) (.leaf 6 (.string true))))
      = .ok (some (.str "guest")) := by cbv
  refine ((object_validates_fieldwise ?_ ?_ ?_).1 _).mpr
    ⟨[some (.str "ann"), none, some (.str "guest")], .cons name (.cons nick (.cons role .nil)), rfl⟩
  · have text : ∃ v, (withNothing.compile 64 (.leaf 1 (.string true))).outcome = .ok v :=
      ⟨{ root := .string true, definitions := [] }, by cbv⟩
    have optional : ∃ v, (withNothing.compile 64
        (.wrapper 2 .optional (.leaf 3 (.string true)))).outcome = .ok v :=
      ⟨{ root := .noneIfMissing (.string true), definitions := [] }, by cbv⟩
    have filled : ∃ v, (withNothing.compile 64 (.wrapper 4 .nullable
        (.wrapper 5 (.default (.str "guest")) (.leaf 6 (.string true))))).outcome = .ok v :=
      ⟨{ root := .nullable (planOfWrapper (.default (.str "guest")) (.string true))
         definitions := [] }, by cbv⟩
    simpa using ⟨text, optional, filled⟩
  · intro property hproperty failure fails
    simp only [List.mem_cons, List.not_mem_nil, or_false] at hproperty
    rcases hproperty with rfl | rfl | rfl
    · cases fails.symm.trans name
    · cases fails.symm.trans nick
    · cases fails.symm.trans role
  · intro property hproperty _ _ standing
    simp only [List.mem_cons, List.not_mem_nil, or_false] at hproperty
    rcases hproperty with rfl | rfl | rfl <;> cases standing

/-! ## Labels -/

/-- Texts, or entries of numbers in which there may be more of either. -/
def textTree : Schema :=
  .union 3 [.record 4 (.leaf 5 (.string true)) (.lazy 1), .leaf 6 (.string true)]

def numberTree : Schema :=
  .union 7 [.record 8 (.leaf 9 (.string true)) (.lazy 0), .leaf 10 (.integer true)]

def trees : Schema :=
  .object 2 [("a", .lazy 0), ("b", .lazy 1)]

/-- A scope in which both trees are defined. -/
def withTrees : Scope :=
  { defs := [("TEXTS", .schema textTree), ("NUMBERS", .schema numberTree)]
    getters := [(0, .named "TEXTS"), (1, .named "NUMBERS")] }

/-- By itself, the option of a number tree spells out the text trees inside. Compiled together with
the text trees, it does not, because these are not complete when the option is put together. -/
theorem label_depends_on_object :
    ∃ own reported,
      withTrees.parse 64 (.lazy 1) (.str "x") = .error (.invalid own) ∧
      withTrees.parse 64 trees (.dict [(.str "a", .str "x"), (.str "b", .str "x")])
        = .error (.invalid reported) ∧
      own.map (·.place) = [[.key "dict[str,union[dict[str,...],str]]"], [.key "int"]] ∧
      reported.map (·.place) = [[.key "b", .key "dict[str,...]"], [.key "b", .key "int"]] ∧
      reported ≠ own.map (·.under (.key "b")) := by
  refine ⟨[⟨.dictType, [.key "dict[str,union[dict[str,...],str]]"], .str "x"⟩,
      ⟨.integerType, [.key "int"], .str "x"⟩],
    [⟨.dictType, [.key "b", .key "dict[str,...]"], .str "x"⟩,
      ⟨.integerType, [.key "b", .key "int"], .str "x"⟩], ?_, ?_, rfl, rfl, ?_⟩
  · cbv
  · cbv
  · intro same
    simp [Issue.under] at same

end Scope

end Schemata
