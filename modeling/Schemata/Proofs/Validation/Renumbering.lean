import Schemata.Proofs.Compilation.Run
import Schemata.Proofs.Validation.Agreement
import Schemata.Proofs.Validation.Results

/-!
# Plans of one schema

Two compilations that build the same schema give it plans with different references, since each
numbers the lazy schemas in the order in which it reaches them. Both plans check alike, but for the
labels of choices, which depend on the definitions that are complete when a union is put together. If
no union is built, a plan also accepts what the other one accepts with fewer references open.
-/

namespace Schemata

namespace Scope

variable {scope : Scope} {limit : Nat} {number number' : NodeId → Nat → Prop}

/-! ## Supplies -/

/-- What a plan supplies is decided by its schema. -/
theorem Plans.supply?_eq {s : Schema} {p p' : Plan} (h : scope.Plans limit number s p)
    (h' : scope.Plans limit number' s p') : p'.supply? = p.supply? := by
  induction s using Schema.children_induction generalizing p p' with
  | h s ih =>
    cases h with
    | leaf hp =>
      cases h' with
      | leaf hp' => rw [Compilation.pure_inj (hp.symm.trans hp')]
    | @wrapper id w inner p hp =>
      cases h' with
      | wrapper hp' =>
        cases w with
        | readonly => exact ih inner (Schema.inner_mem_children id _ inner) hp hp'
        | _ => rfl
    | union hps =>
      cases h' with
      | union hps' =>
        cases hps with
        | nil =>
          cases hps'
          rfl
        | cons hp hps =>
          cases hps' with
          | cons hp' hps' =>
            cases hps with
            | nil =>
              cases hps'
              rw [Plan.supply?_union_singleton, Plan.supply?_union_singleton]
              exact ih _ (List.mem_singleton.mpr rfl) hp hp'
            | cons =>
              cases hps'
              rfl
    | _ =>
      cases h'
      rfl

/-- The properties of an object differ in their plans only. -/
theorem fieldOf_supply?_eq (name : String) {s : Schema} {p p' : Plan} (absence : Option Kind)
    (h : p'.supply? = p.supply?) :
    (fieldOf name s p' absence).plan.supply? = (fieldOf name s p absence).plan.supply? := by
  cases absence with
  | none => exact h
  | some k =>
    simp only [fieldOf]
    split
    · rfl
    · exact h

theorem fieldOf_required_eq (name : String) (s : Schema) (p p' : Plan) (absence : Option Kind) :
    (fieldOf name s p' absence).required = (fieldOf name s p absence).required := by
  cases absence with
  | none => rfl
  | some k =>
    simp only [fieldOf]
    split <;> rfl

/-- The plan of a property checks as the plan of its schema does. -/
@[simp]
theorem check_fieldOf (name : String) (s : Schema) (p : Plan) (absence : Option Kind)
    (definitions : List (Nat × Plan)) (depth : Nat) (known : List (Nat × Plan)) :
    (fieldOf name s p absence).plan.check definitions depth known
      = p.check definitions depth known := by
  rcases fieldOf_plan_cases name s p absence with hplan | hplan
  · rw [hplan]
  · rw [hplan, Plan.check]

@[simp] theorem fieldOf_name (name : String) (s : Schema) (p : Plan) (absence : Option Kind) :
    (fieldOf name s p absence).name = name := by
  cases absence with
  | none => rfl
  | some k =>
    simp only [fieldOf]
    split <;> rfl

/-! ## Plans of the same schema -/

section

variable {full : Prop} {L : String → String → Prop} {E : List Nat → List Nat → Prop}
  {definitions definitions' : List (Nat × Plan)} {depth depth' : Nat}
  {known known' : List (Nat × Plan)}

/-- Plans of `s` check alike, those on one side by `check` and those on the other side by `check'`.
-/
abbrev PlansAlike (scope : Scope) (limit : Nat) (number number' : NodeId → Nat → Prop) (full : Prop)
    (L : String → String → Prop) (E : List Nat → List Nat → Prop) (check check' : Plan → Check) (s : Schema) : Prop :=
  ∀ ⦃p p' : Plan⦄, scope.Plans limit number s p → scope.Plans limit number' s p' →
    (check p).Matches full L E (check' p')

theorem PlansAll.itemChecks_alike {ss : List Schema}
    (each : ∀ s ∈ ss, scope.PlansAlike limit number number' full L E
      (Plan.check definitions depth known) (Plan.check definitions' depth' known') s)
    {ps ps' : List Plan} (h : scope.PlansAll limit number ss ps)
    (h' : scope.PlansAll limit number' ss ps') :
    List.Forall₂ (Check.ItemCheck.Matches full L E) (Plan.itemChecks definitions depth known ps)
      (Plan.itemChecks definitions' depth' known' ps') := by
  induction ss generalizing ps ps' with
  | nil =>
    cases h
    cases h'
    rw [Plan.itemChecks, Plan.itemChecks]
    exact .nil
  | cons s rest ih =>
    obtain _ | ⟨hp, hps⟩ := h
    obtain _ | ⟨hp', hps'⟩ := h'
    rw [Plan.itemChecks, Plan.itemChecks]
    exact .cons ⟨each s List.mem_cons_self hp hp', hp.supply?_eq hp'⟩
      (ih (fun s hs => each s (List.mem_cons_of_mem _ hs)) hps hps')

theorem PlansAll.choiceChecks_alike {ss : List Schema}
    (each : ∀ s ∈ ss, scope.PlansAlike limit number number' full L E
      (Plan.check definitions depth known) (Plan.check definitions' depth' known') s)
    (labels : ∀ s ∈ ss, ∀ p p', scope.Plans limit number s p → scope.Plans limit number' s p' →
      L (p.choiceLabel definitions known) (p'.choiceLabel definitions' known'))
    {ps ps' : List Plan} (h : scope.PlansAll limit number ss ps)
    (h' : scope.PlansAll limit number' ss ps') :
    List.Forall₂ (Check.ChoiceCheck.Matches full L E) (Plan.choiceChecks definitions depth known ps)
      (Plan.choiceChecks definitions' depth' known' ps') := by
  induction ss generalizing ps ps' with
  | nil =>
    cases h
    cases h'
    rw [Plan.choiceChecks, Plan.choiceChecks]
    exact .nil
  | cons s rest ih =>
    obtain _ | ⟨hp, hps⟩ := h
    obtain _ | ⟨hp', hps'⟩ := h'
    rw [Plan.choiceChecks, Plan.choiceChecks]
    exact .cons ⟨labels s List.mem_cons_self _ _ hp hp', each s List.mem_cons_self hp hp'⟩
      (ih (fun s hs => each s (List.mem_cons_of_mem _ hs))
        (fun s hs => labels s (List.mem_cons_of_mem _ hs)) hps hps')

theorem PlansShape.alike {shape : List (String × Schema)}
    (each : ∀ s ∈ shape.map (·.2), scope.PlansAlike limit number number' full L E
      (Plan.check definitions depth known) (Plan.check definitions' depth' known') s)
    {fields fields' : List (Field Plan)} (h : scope.PlansShape limit number shape fields)
    (h' : scope.PlansShape limit number' shape fields') :
    List.Forall₂ (Check.FieldCheck.Matches full L E) (Plan.fieldChecks definitions depth known fields)
      (Plan.fieldChecks definitions' depth' known' fields') := by
  induction shape generalizing fields fields' with
  | nil =>
    cases h
    cases h'
    rw [Plan.fieldChecks, Plan.fieldChecks]
    exact .nil
  | cons property rest ih =>
    obtain ⟨name, s⟩ := property
    obtain _ | ⟨hp, habsence, hfields⟩ := h
    obtain _ | ⟨hp', habsence', hfields'⟩ := h'
    obtain rfl := Except.ok.inj (habsence.symm.trans habsence')
    have first := each s List.mem_cons_self hp hp'
    have others := ih (fun s hs => each s (List.mem_cons_of_mem _ hs)) hfields hfields'
    rw [Plan.fieldChecks_cons, Plan.fieldChecks_cons]
    refine .cons ⟨?_, ?_, ?_, ?_⟩ others
    · rw [fieldOf_name, fieldOf_name]
    · exact fieldOf_required_eq name s _ _ _
    · rw [check_fieldOf, check_fieldOf]
      exact first
    · exact fieldOf_supply?_eq name _ (hp.supply?_eq hp')

theorem planOfLeaf_alike {l : Leaf} {p : Plan} (h : planOfLeaf l = pure p) :
    (p.check definitions depth known).Matches full L E (p.check definitions' depth' known') := by
  cases l with
  | base => exact (planOfLeaf_base_ne h).elim
  | string strict =>
    obtain rfl := Compilation.pure_inj h
    rw [Plan.check, Plan.check]
    exact Check.matches_steady (Leaf.steady_checkString strict)
  | number strict =>
    obtain rfl := Compilation.pure_inj h
    rw [Plan.check, Plan.check]
    exact Check.matches_steady (Leaf.steady_checkNumber strict)
  | integer strict =>
    obtain rfl := Compilation.pure_inj h
    rw [Plan.check, Plan.check]
    exact Check.matches_steady (Leaf.steady_checkInteger strict)
  | boolean strict =>
    obtain rfl := Compilation.pure_inj h
    rw [Plan.check, Plan.check]
    exact Check.matches_steady (Leaf.steady_checkBoolean strict)
  | null =>
    obtain rfl := Compilation.pure_inj h
    rw [Plan.check, Plan.check]
    exact Check.matches_steady Leaf.steady_checkNull
  | literal value =>
    obtain rfl := Compilation.pure_inj h
    rw [Plan.check, Plan.check]
    exact Check.matches_steady (Leaf.steady_checkLiteral [value])
  | enum values =>
    obtain rfl := Compilation.pure_inj h
    rw [Plan.check, Plan.check]
    exact Check.matches_steady (Leaf.steady_checkLiteral values)
  | any =>
    obtain rfl := Compilation.pure_inj h
    rw [Plan.check, Plan.check]
    exact Check.matches_anything
  | transform function =>
    obtain rfl := Compilation.pure_inj h
    rw [Plan.check, Plan.check]
    exact Check.matches_call function

theorem planOfWrapper_alike {w : Wrapper} {p p' : Plan}
    (h : (p.check definitions depth known).Matches full L E (p'.check definitions' depth' known')) :
    ((planOfWrapper w p).check definitions depth known).Matches full L E
      ((planOfWrapper w p').check definitions' depth' known') := by
  cases w with
  | optional =>
    rw [planOfWrapper, planOfWrapper, Plan.check, Plan.check]
    exact Check.matches_ifMissing h .none
  | nullable =>
    rw [planOfWrapper, planOfWrapper, Plan.check, Plan.check]
    exact Check.matches_nullable h
  | readonly => exact h
  | default value =>
    rw [planOfWrapper, planOfWrapper, Plan.check, Plan.check, Plan.check, Plan.check]
    exact Check.matches_ifMissing h value

/-- No union is built. -/
def Unionless (scope : Scope) (limit : Nat) (s : Schema) : Prop :=
  ∀ u, scope.Builds limit s u → u.kind ≠ .union

theorem Unionless.of_builds {s t : Schema} (h : scope.Unionless limit s)
    (builds : scope.Builds limit s t) : scope.Unionless limit t :=
  fun u hu => h u (builds.trans hu)

/-- `t` is an option of a union that is built. -/
def BuildsOption (scope : Scope) (limit : Nat) (s t : Schema) : Prop :=
  ∃ u, scope.Builds limit s u ∧ u.kind = .union ∧ t ∈ u.children

theorem BuildsOption.of_builds {s t u : Schema} (h : scope.BuildsOption limit t u)
    (builds : scope.Builds limit s t) : scope.BuildsOption limit s u := by
  obtain ⟨v, hv, union, hu⟩ := h
  exact ⟨v, builds.trans hv, union, hu⟩

/-- Plans of a schema check alike if references to the same lazy schema do. -/
theorem plansAlike_of_references (own : E [] []) {s : Schema}
    (plain : full ∨ scope.Unionless limit s)
    (labels : ∀ t p p', scope.BuildsOption limit s t → scope.Plans limit number t p →
      scope.Plans limit number' t p' →
        L (p.choiceLabel definitions known) (p'.choiceLabel definitions' known'))
    (references : ∀ id n n', scope.Builds limit s (.lazy id) → number id n → number' id n' →
      ((Plan.reference n).check definitions depth known).Matches full L E
        ((Plan.reference n').check definitions' depth' known')) :
    scope.PlansAlike limit number number' full L E (Plan.check definitions depth known)
      (Plan.check definitions' depth' known') s := by
  induction s using Schema.children_induction with
  | h s ih =>
    -- Children are built where the schema is, so what is assumed of it is assumed of them.
    have children (c : Schema) (hc : c ∈ s.children) :=
      ih c hc (plain.imp_right (·.of_builds (.single (.child hc))))
        (fun t p p' option => labels t p p' (option.of_builds (.single (.child hc))))
        fun id n n' builds => references id n n' (.head (.child hc) builds)
    intro p p' h h'
    cases h with
    | leaf hp =>
      cases h' with
      | leaf hp' =>
        obtain rfl := Compilation.pure_inj (hp.symm.trans hp')
        exact planOfLeaf_alike hp
    | object hfields =>
      cases h' with
      | object hfields' =>
        rw [Plan.check, Plan.check]
        exact Check.matches_object (PlansShape.alike children hfields hfields') own
    | @array id element p hp =>
      cases h' with
      | array hp' =>
        rw [Plan.check, Plan.check]
        exact Check.matches_list (children _ (Schema.element_mem_children id element) hp hp') own
    | @record id key value p q hp hq =>
      cases h' with
      | record hp' hq' =>
        rw [Plan.check, Plan.check]
        exact Check.matches_dict (children _ (Schema.key_mem_children id key value) hp hp')
          (children _ (Schema.value_mem_children id key value) hq hq') own
    | tuple hps =>
      cases h' with
      | tuple hps' =>
        rw [Plan.check, Plan.check]
        exact Check.matches_tuple (PlansAll.itemChecks_alike children hps hps') own
    | union hps =>
      cases h' with
      | union hps' =>
        -- Labels of options matter only here, and nothing without unions comes here.
        have hfull : full := plain.resolve_right fun unionless => unionless _ .refl rfl
        rw [Plan.check, Plan.check]
        exact Check.matches_union hfull (PlansAll.choiceChecks_alike children
          (fun t ht p p' => labels t p p' ⟨_, .refl, rfl, ht⟩) hps hps')
    | @wrapper id w inner p hp =>
      cases h' with
      | wrapper hp' =>
        exact planOfWrapper_alike (children _ (Schema.inner_mem_children id w inner) hp hp')
    | @pipe id input output p q hp hq =>
      cases h' with
      | pipe hp' hq' =>
        rw [Plan.check, Plan.check]
        exact Check.matches_chain (children input List.mem_cons_self hp hp')
          (children _ (Schema.output_mem_children id input output) hq hq') own
    | lazy hn =>
      cases h' with
      | lazy hn' => exact references _ _ _ .refl hn hn'

end

/-! ## Definitions -/

/-- Definitions of the same lazy schemas are being applied. -/
def SameApplied (d d' : Draft) (e e' : List Nat) : Prop :=
  ∀ id n n', d.Numbers id n → d'.Numbers id n' → (n ∈ e ↔ n' ∈ e')

theorem SameApplied.nil (d d' : Draft) : SameApplied d d' [] [] :=
  fun _ _ _ _ _ => by simp

theorem SameApplied.cons {d d' : Draft} {e e' : List Nat} (h : SameApplied d d' e e') {id : NodeId}
    {n n' : Nat} (hn : d.Numbers id n) (hn' : d'.Numbers id n') :
    SameApplied d d' (n :: e) (n' :: e') := by
  intro j m m' hm hm'
  have same : m = n ↔ m' = n' := by
    constructor
    · rintro rfl
      obtain rfl := hm.det hn
      exact Option.some.inj (hm'.symm.trans hn')
    · rintro rfl
      obtain rfl := hm'.det hn'
      exact Option.some.inj (hm.symm.trans hn)
  rw [List.mem_cons, List.mem_cons, same, h j m m' hm hm']

variable {d d' : Draft} {root root' : Schema} {plan plan' : Plan}

/-- The definitions that are complete when a plan is put together: all of them for the root, and those
before a definition for the body of that. -/
inductive Completed (definitions : List (Nat × Plan)) : List (Nat × Plan) → Prop
  | root : Completed definitions definitions
  | body {n : Nat} {p : Plan} :
    definitions.lookup n = some p → Completed definitions (completedBefore n definitions)

/-- `label` is what some compilation has for the choice that `t` is. -/
def Labels (scope : Scope) (limit : Nat) (t : Schema) (label : String) : Prop :=
  ∃ root d plan p known, scope.Finished limit root d plan ∧ scope.Plans limit d.Numbers t p ∧
    Completed d.definitions known ∧ label = p.choiceLabel d.definitions known

/-- Labels of one option of a union that `s` builds. -/
def SameOption (scope : Scope) (limit : Nat) (s : Schema) (label label' : String) : Prop :=
  ∃ t, scope.BuildsOption limit s t ∧ scope.Labels limit t label ∧ scope.Labels limit t label'

/-- The plans that two compilations give a schema check alike while equally many references may be
open. With more of them open, a plan of a schema without unions accepts at least as much. -/
theorem Finished.check_matches (h : scope.Finished limit root d plan)
    (h' : scope.Finished limit root' d' plan') {full : Prop} {depth depth' : Nat}
    (deeper : depth ≤ depth') (level : full → depth = depth') {known known' : List (Nat × Plan)}
    (complete : Completed d.definitions known) (complete' : Completed d'.definitions known')
    {s : Schema} (plain : full ∨ scope.Unionless limit s) :
    scope.PlansAlike limit d.Numbers d'.Numbers full (scope.SameOption limit s) (SameApplied d d')
      (Plan.check d.definitions depth known) (Plan.check d'.definitions depth' known') s := by
  suffices alike : ∀ t, scope.Builds limit s t →
      scope.PlansAlike limit d.Numbers d'.Numbers full (scope.SameOption limit s) (SameApplied d d')
        (Plan.check d.definitions depth known) (Plan.check d'.definitions depth' known') t from
    alike s .refl
  have labels {u : Schema} (hu : scope.Builds limit s u) {known known' : List (Nat × Plan)}
      (complete : Completed d.definitions known) (complete' : Completed d'.definitions known')
      (t : Schema) (p p' : Plan) (option : scope.BuildsOption limit u t)
      (hp : scope.Plans limit d.Numbers t p) (hp' : scope.Plans limit d'.Numbers t p') :
      scope.SameOption limit s (p.choiceLabel d.definitions known)
        (p'.choiceLabel d'.definitions known') :=
    ⟨t, option.of_builds hu, ⟨_, _, _, p, known, h, hp, complete, rfl⟩,
      ⟨_, _, _, p', known', h', hp', complete', rfl⟩⟩
  induction depth generalizing depth' known known' with
  | zero =>
    intro u hu
    refine plansAlike_of_references (.nil d d') (plain.imp_right (·.of_builds hu))
      (labels hu complete complete') fun id n n' _ _ _ => ?_
    intro e e' _ R _ v t t' _
    rw [Plan.check, Plan.check]
    by_cases hfull : full
    · obtain rfl := level hfull
      exact .refuse _ _
    · refine .unlike hfull fun _ _ accepted => ?_
      cases accepted
  | succ depth ih =>
    obtain ⟨rest, rfl⟩ : ∃ rest, depth' = rest + 1 := ⟨depth' - 1, by omega⟩
    intro u hu
    refine plansAlike_of_references (.nil d d') (plain.imp_right (·.of_builds hu))
      (labels hu complete complete') fun id n n' builds hn hn' => ?_
    obtain ⟨t, body, ht, found, hbody⟩ := h.definition hn
    obtain ⟨t', body', ht', found', hbody'⟩ := h'.definition hn'
    obtain rfl := Except.ok.inj (ht.symm.trans ht')
    intro e e' he R hR v st st' hst
    rw [Plan.check, Plan.check]
    simp only [found, found']
    by_cases applied : n ∈ e
    · rw [if_pos applied, if_pos ((he id n n' hn hn').mp applied)]
      exact .refuse _ _
    · rw [if_neg applied, if_neg (mt (he id n n' hn hn').mpr applied)]
      -- what is complete when a definition is put together is what came before it
      exact ih (by omega) (fun hfull => by have := level hfull; omega) (.body found) (.body found') t
        (hu.trans (builds.target ht)) hbody hbody' (he.cons hn hn') hR v hst

end Scope

end Schemata
