import Schemata.Proofs.Validation.Checks
import Schemata.Proofs.Validation.Leaves
import Schemata.Proofs.Compilation.Run
import Schemata.Validation.Run

/-!
# What validation gives

Whatever a value was, if the validator of a schema accepts it, the result fits the schema. Defaults
are not validated, so they have to fit what they stand for.
-/

namespace Schemata

namespace Plan

variable {definitions : List (Nat × Plan)} {depth : Nat} {known : List (Nat × Plan)}

@[simp]
theorem fieldChecks_cons (field : Field Plan) (fields : List (Field Plan)) :
    fieldChecks definitions depth known (field :: fields)
      = { name := field.name, required := field.required
          check := check definitions depth known field.plan, supply? := field.plan.supply? }
        :: fieldChecks definitions depth known fields := by
  obtain ⟨name, plan, required⟩ := field
  rw [fieldChecks]

/-- A single choice supplies what the union supplies. -/
@[simp]
theorem supply?_union_singleton (p : Plan) : (union [p]).supply? = p.supply? := by
  rw [supply?, supply?, alone]

end Plan

namespace Scope

variable {scope : Scope} {limit : Nat}

/-! ## Lazy schemas -/

theorem exists_of_ask {α : Type} {id : NodeId} {f : Schema → Trail NodeId α} {a : α}
    (h : (scope.ask id >>= f).outcome = .ok a) :
    ∃ s, scope.target id = .ok s ∧ (f s).outcome = .ok a :=
  Trail.exists_of_outcome_bind h

theorem force_contains {budget : Nat} {s t : Schema}
    (h : (scope.force limit budget s).outcome = .ok t) : scope.Contains s t := by
  induction budget generalizing s with
  | zero => cases h
  | succ budget ih =>
    cases s with
    | lazy id =>
      obtain ⟨u, hu, h⟩ := exists_of_ask h
      exact .head (.target (fun h => h) hu) (ih h)
    | _ =>
      cases h
      exact .refl

/-- What fits the schema that is behind lazy schemas fits them. -/
theorem fits_of_force {budget : Nat} {s t : Schema} {v : Value}
    (h : (scope.force limit budget s).outcome = .ok t) (ht : scope.Fits limit t v) :
    scope.Fits limit s v := by
  induction budget generalizing s with
  | zero => cases h
  | succ budget ih =>
    cases s with
    | lazy id =>
      obtain ⟨u, hu, h⟩ := exists_of_ask h
      exact .lazy hu (ih h)
    | _ =>
      cases h
      exact ht

/-! ## Defaults -/

/-- Every default that a search finds fits what it stands for. -/
def DefaultsFit (scope : Scope) (limit : Nat) (root : Schema) : Prop :=
  ∀ id value inner, scope.Contains root (.wrapper id (.default value) inner) →
    scope.Fits limit inner value

theorem DefaultsFit.of_contains {root s : Schema} (h : scope.DefaultsFit limit root)
    (hs : scope.Contains root s) : scope.DefaultsFit limit s :=
  fun id value inner hinner => h id value inner (hs.trans hinner)

variable {root : Schema} {number : NodeId → Nat → Prop}

/-- What the plan of a schema supplies is a default, which fits the schema. -/
theorem Plans.supply? (defaults : scope.DefaultsFit limit root) {s : Schema} {p : Plan}
    {supply : Supply} (hs : scope.Contains root s) (h : scope.Plans limit number s p)
    (hsupply : p.supply? = some supply) : ∃ v, supply = .copy v ∧ scope.Fits limit s v := by
  induction s using Schema.children_induction generalizing p with
  | h s ih =>
    cases h with
    | @leaf id l p hp =>
      cases l with
      | base => exact (planOfLeaf_base_ne hp).elim
      | _ =>
        obtain rfl := Compilation.pure_inj hp
        cases hsupply
    | @wrapper id w inner p hp =>
      have hinner := Schema.inner_mem_children id w inner
      cases w with
      | optional => cases hsupply
      | nullable => cases hsupply
      | readonly =>
        obtain ⟨v, rfl, hv⟩ := ih inner hinner (hs.child hinner) hp hsupply
        exact ⟨v, rfl, .wrapper hv⟩
      | default value =>
        cases hsupply
        exact ⟨value, rfl, .wrapper (defaults _ _ _ hs)⟩
    | @union id options ps hps =>
      cases hps with
      | nil => cases hsupply
      | @cons option rest p ps hp hps =>
        cases hps with
        | nil =>
          rw [Plan.supply?_union_singleton] at hsupply
          have hoption : option ∈ Schema.children (.union id [option]) := List.mem_singleton.mpr rfl
          obtain ⟨v, rfl, hv⟩ := ih option hoption (hs.child hoption) hp hsupply
          exact ⟨v, rfl, .union hoption hv⟩
        | cons => cases hsupply
    | _ => cases hsupply

/-! ## Fields -/

/-- Absence that is no default lets a property be lacking. -/
theorem mayLack_of_absence {s : Schema} {k : Kind}
    (h : (scope.absence limit s).outcome = .ok (some k)) (hk : k ≠ .default) :
    scope.MayLack limit s := by
  rcases absence_cases h with rfl | rfl
  · exact h
  · exact absurd rfl hk

/-- The plan of a property is the plan of its schema, or validates absence with that plan. -/
theorem fieldOf_plan_cases (name : String) (s : Schema) (p : Plan) (absence : Option Kind) :
    (fieldOf name s p absence).plan = p ∨ (fieldOf name s p absence).plan = .supplied .absence p := by
  cases absence with
  | none => exact .inl rfl
  | some k =>
    simp only [fieldOf]
    split
    · exact .inr rfl
    · exact .inl rfl

/-- A property that is not required has its value supplied unless it may be lacking. -/
theorem mayLack_of_fieldOf {name : String} {s : Schema} {p : Plan} {absence : Option Kind}
    (h : scope.Plans limit number s p) (habsence : (scope.absence limit s).outcome = .ok absence)
    (optional : (fieldOf name s p absence).required = false)
    (unsupplied : (fieldOf name s p absence).plan.supply? = none) : scope.MayLack limit s := by
  cases absence with
  | none => cases optional
  | some k =>
    by_cases hk : k = .default
    · subst hk
      cases allowed : s.kind.allowsAbsence with
      | false =>
        simp only [fieldOf, allowed] at unsupplied
        cases unsupplied
      | true =>
        obtain ⟨id, value, inner, rfl⟩ := eq_default_of_absence habsence allowed
        cases h with
        | wrapper =>
          simp only [fieldOf, allowed] at unsupplied
          cases unsupplied
    · exact mayLack_of_absence habsence hk

/-! ## Plans -/

section

variable {definitions : List (Nat × Plan)} {depth : Nat} {known : List (Nat × Plan)}

theorem planOfLeaf_gives {id : NodeId} {l : Leaf} {p : Plan} (h : planOfLeaf l = pure p) :
    (p.check definitions depth known).Gives (scope.Fits limit (.leaf id l)) := by
  intro entered v r s s' accepted
  refine .leaf ?_
  cases l with
  | base => exact (planOfLeaf_base_ne h).elim
  | string strict =>
    obtain rfl := Compilation.pure_inj h
    rw [Plan.check] at accepted
    exact Leaf.checkString_gives accepted
  | number strict =>
    obtain rfl := Compilation.pure_inj h
    rw [Plan.check] at accepted
    exact Leaf.checkNumber_gives accepted
  | integer strict =>
    obtain rfl := Compilation.pure_inj h
    rw [Plan.check] at accepted
    exact Leaf.checkInteger_gives accepted
  | boolean strict =>
    obtain rfl := Compilation.pure_inj h
    rw [Plan.check] at accepted
    exact Leaf.checkBoolean_gives accepted
  | null =>
    obtain rfl := Compilation.pure_inj h
    rw [Plan.check] at accepted
    exact Leaf.checkNull_gives accepted
  | literal value =>
    obtain rfl := Compilation.pure_inj h
    rw [Plan.check] at accepted
    exact List.mem_singleton.mp (Leaf.checkLiteral_gives accepted)
  | enum values =>
    obtain rfl := Compilation.pure_inj h
    rw [Plan.check] at accepted
    exact Leaf.checkLiteral_gives accepted
  | any => trivial
  | transform => trivial

theorem planOfWrapper_gives {id : NodeId} {w : Wrapper} {inner : Schema} {p : Plan}
    (default : ∀ value, w = .default value → scope.Fits limit inner value)
    (h : (p.check definitions depth known).Gives (scope.Fits limit inner)) :
    ((planOfWrapper w p).check definitions depth known).Gives
      (scope.Fits limit (.wrapper id w inner)) := by
  cases w with
  | optional =>
    rw [planOfWrapper, Plan.check]
    refine (Check.ifMissing_gives h .none).imp ?_
    rintro v (rfl | hv)
    · exact .nothing rfl
    · exact .wrapper hv
  | nullable =>
    rw [planOfWrapper, Plan.check]
    refine (Check.nullable_gives h).imp ?_
    rintro v (rfl | hv)
    · exact .nothing rfl
    · exact .wrapper hv
  | readonly => exact h.imp fun _ => .wrapper
  | default value =>
    rw [planOfWrapper, Plan.check, Plan.check]
    refine (Check.ifMissing_gives h value).imp ?_
    rintro v (rfl | hv)
    · exact .wrapper (default _ rfl)
    · exact .wrapper hv

mutual

/-- The check of a plan gives what fits its schema, if the references in the plan do. -/
theorem Plans.gives (defaults : scope.DefaultsFit limit root)
    (references : ∀ id n, number id n → scope.Contains root (.lazy id) →
      ((Plan.reference n).check definitions depth known).Gives (scope.Fits limit (.lazy id)))
    {s : Schema} {p : Plan} (hs : scope.Contains root s) :
    scope.Plans limit number s p →
      (p.check definitions depth known).Gives (scope.Fits limit s)
  | .leaf hp => planOfLeaf_gives hp
  | @Plans.object _ _ _ id shape fields hfields => by
    -- What belongs to the results and which names are present were told apart when the fields were
    -- checked. Both are said of the properties here.
    have made := PlansShape.gives defaults references
      (fun s h => hs.child (Schema.property_mem_children id h)) hfields
    rw [Plan.check]
    refine (Check.object_gives made).imp ?_
    rintro v ⟨entries, rfl, belongs, present⟩
    refine .object ?_ ?_
    · rintro ⟨key, v⟩ he
      obtain ⟨⟨name, s⟩, hmem, rfl, hv⟩ := belongs _ he
      exact .intro hmem hv
    · intro name hname hlack
      obtain ⟨⟨_, s⟩, hmem, rfl⟩ := List.mem_map.mp hname
      exact present _ hmem (hlack s hmem)
  | @Plans.array _ _ _ id element p hp => by
    have element := Plans.gives defaults references (hs.child (Schema.element_mem_children id element)) hp
    rw [Plan.check]
    refine (Check.list_gives element).imp ?_
    exact fun _ => fits_array_iff.mpr
  | @Plans.record _ _ _ id key value p q hp hq => by
    have keys := Plans.gives defaults references (hs.child (Schema.key_mem_children id key value)) hp
    have values := Plans.gives defaults references
      (hs.child (Schema.value_mem_children id key value)) hq
    rw [Plan.check]
    refine (Check.dict_gives keys values).imp ?_
    rintro v ⟨entries, rfl, hentries⟩
    exact .record (fun e he => (hentries e he).1) fun e he => (hentries e he).2
  | @Plans.tuple _ _ _ id items ps hps => by
    have made := PlansAll.gives defaults references (fun s h => hs.child h) hps
    rw [Plan.check]
    refine (Check.tuple_gives made.1).imp ?_
    exact fun _ => fits_tuple_iff.mpr
  | @Plans.union _ _ _ id options ps hps => by
    -- The results of all options fit, so it does not matter which one wins.
    have made := PlansAll.gives defaults references (fun s h => hs.child h) hps
    rw [Plan.check]
    refine Check.union_gives ?_
    intro choice hchoice
    obtain ⟨s, hs, gives⟩ := made.2 choice hchoice
    exact gives.imp fun _ => .union hs
  | @Plans.wrapper _ _ _ id w inner p hp => by
    have inside := Plans.gives defaults references (hs.child (Schema.inner_mem_children id w inner)) hp
    refine planOfWrapper_gives ?_ inside
    rintro value rfl
    exact defaults _ _ _ hs
  | @Plans.pipe _ _ _ id input output p q _ hq => by
    have second := Plans.gives defaults references
      (hs.child (Schema.output_mem_children id input output)) hq
    rw [Plan.check]
    exact (Check.chain_gives second).imp fun _ => .pipe
  | .lazy hn => references _ _ hn hs

theorem PlansAll.gives (defaults : scope.DefaultsFit limit root)
    (references : ∀ id n, number id n → scope.Contains root (.lazy id) →
      ((Plan.reference n).check definitions depth known).Gives (scope.Fits limit (.lazy id)))
    {ss : List Schema} {ps : List Plan} (hss : ∀ s ∈ ss, scope.Contains root s) :
    scope.PlansAll limit number ss ps →
      List.Forall₂ (fun item s => Check.Supplies item.check item.supply? (scope.Fits limit s))
        (Plan.itemChecks definitions depth known ps) ss ∧
      ∀ choice ∈ Plan.choiceChecks definitions depth known ps,
        ∃ s ∈ ss, choice.check.Gives (scope.Fits limit s)
  | .nil => by
    rw [Plan.itemChecks, Plan.choiceChecks]
    exact ⟨.nil, fun _ h => absurd h List.not_mem_nil⟩
  | @PlansAll.cons _ _ _ s ss p ps hp hps => by
    obtain ⟨hs, hss⟩ := List.forall_mem_cons.mp hss
    have first := Plans.gives defaults references hs hp
    obtain ⟨items, choices⟩ := PlansAll.gives defaults references hss hps
    rw [Plan.itemChecks, Plan.choiceChecks]
    refine ⟨.cons ⟨first, ?_⟩ items, List.forall_mem_cons.mpr ⟨⟨s, List.mem_cons_self, first⟩, ?_⟩⟩
    · intro v hv
      obtain ⟨_, heq, hfits⟩ := hp.supply? defaults hs hv
      cases heq
      exact hfits
    · intro choice hchoice
      obtain ⟨s, hs, gives⟩ := choices choice hchoice
      exact ⟨s, List.mem_cons_of_mem _ hs, gives⟩

theorem PlansShape.gives (defaults : scope.DefaultsFit limit root)
    (references : ∀ id n, number id n → scope.Contains root (.lazy id) →
      ((Plan.reference n).check definitions depth known).Gives (scope.Fits limit (.lazy id)))
    {shape : List (String × Schema)} {fields : List (Field Plan)}
    (hshape : ∀ {name} s, (name, s) ∈ shape → scope.Contains root s) :
    scope.PlansShape limit number shape fields →
      List.Forall₂ (fun field property => Check.FieldCheck.Makes field property.1
          (scope.Fits limit property.2) (scope.MayLack limit property.2))
        (Plan.fieldChecks definitions depth known fields) shape
  | .nil => by
    rw [Plan.fieldChecks]
    exact .nil
  | @PlansShape.cons _ _ _ name s shape p absence fields hp habsence hfields => by
    have hs := hshape s List.mem_cons_self
    have first := Plans.gives defaults references hs hp
    have others := PlansShape.gives defaults references
      (fun s h => hshape s (List.mem_cons_of_mem _ h)) hfields
    rw [Plan.fieldChecks_cons]
    refine .cons ⟨?_, ⟨?_, ?_⟩, ?_⟩ others
    · cases absence with
      | none => rfl
      | some k =>
        simp only [fieldOf]
        split <;> rfl
    · rcases fieldOf_plan_cases name s p absence with hplan | hplan
      · rw [hplan]
        exact first
      · rw [hplan, Plan.check]
        exact first
    · intro v hv
      rcases fieldOf_plan_cases name s p absence with hplan | hplan
      · rw [hplan] at hv
        obtain ⟨_, heq, hfits⟩ := hp.supply? defaults hs hv
        cases heq
        exact hfits
      · rw [hplan] at hv
        cases hv
    · exact mayLack_of_fieldOf hp habsence

end

end

/-- With the definitions that compiling leaves behind, every check gives what fits. -/
theorem Plans.check_gives (defaults : scope.DefaultsFit limit root) {d : Draft}
    (sound : d.Sound scope limit) (depth : Nat) (known : List (Nat × Plan)) {s : Schema} {p : Plan}
    (hs : scope.Contains root s) (h : scope.Plans limit d.Numbers s p) :
    (p.check d.definitions depth known).Gives (scope.Fits limit s) := by
  induction depth generalizing known s p with
  | zero =>
    refine Plans.gives defaults ?_ hs h
    intro id n hn _ entered v r s s' accepted
    rw [Plan.check] at accepted
    cases accepted
  | succ depth ih =>
    refine Plans.gives defaults ?_ hs h
    intro id n hn hid entered v r s s' accepted
    rw [Plan.check] at accepted
    simp only at accepted
    split at accepted
    · cases accepted
    · split at accepted
      · cases accepted
      next body hbody =>
        obtain ⟨id', t, hn', ht, hp⟩ := sound n body (mem_of_lookup hbody)
        obtain rfl := hn.det hn'
        exact fits_of_force ht (ih _ (hid.trans (force_contains ht)) hp accepted)

/-- If the validator of a schema accepts a value, the result fits the schema. -/
theorem validate_fits {s : Schema} {v : Validator} {value result : Value}
    (defaults : scope.DefaultsFit limit s) (compiled : (scope.compile limit s).outcome = .ok v)
    (accepted : v.validate value = .ok result) : scope.Fits limit s result := by
  obtain ⟨d, hdefinitions, finished⟩ := compile_finished compiled
  obtain ⟨standing, hrun⟩ := Verdict.toExcept_eq_ok_iff.mp accepted
  unfold Validator.run at hrun
  rw [hdefinitions] at hrun
  exact finished.plans.check_gives defaults finished.sound _ _ .refl hrun

end Scope

end Schemata
