import Mathlib.Data.List.Forall2
import Schemata.Proofs.Validation.Checks

/-!
# Checks that agree

When one check accepts whatever another one accepts, with the same result, and when it also refuses
what the other one refuses, for the same issues. The places of issues are followed up to the labels of
choices. How well a value fits is only followed up to a relation, since it decides nothing outside the
choices of a union, and these begin afresh. Each combination of checks passes agreement on from its
parts.
-/

namespace Schemata

/-- Steps of a place that may differ in the label of a choice. `L` relates labels. -/
inductive Place.Alike (L : String → String → Prop) : Place → Place → Prop
  | same (step : Place) : Alike L step step
  | label {l l' : String} : L l l' → Alike L (.key l) (.key l')

/-- Issues with the same value for the same reason, at places that may differ in labels. -/
structure Issue.Alike (L : String → String → Prop) (issue issue' : Issue) : Prop where
  complaint : issue'.complaint = issue.complaint
  input : issue'.input = issue.input
  place : List.Forall₂ (Place.Alike L) issue.place issue'.place

/-- Issues that are alike one by one. -/
abbrev IssuesAlike (L : String → String → Prop) : List Issue → List Issue → Prop :=
  List.Forall₂ (Issue.Alike L)

section

variable {L : String → String → Prop} {issues issues' : List Issue}

theorem Issue.Alike.refl (issue : Issue) : issue.Alike L issue where
  complaint := rfl
  input := rfl
  place := List.forall₂_same.mpr fun step _ => .same step

theorem IssuesAlike.refl (issues : List Issue) : IssuesAlike L issues issues :=
  List.forall₂_same.mpr fun issue _ => .refl issue

theorem IssuesAlike.under (h : IssuesAlike L issues issues') {step step' : Place}
    (hstep : step.Alike L step') :
    IssuesAlike L (issues.map (·.under step)) (issues'.map (·.under step')) := by
  refine List.forall₂_map_left_iff.mpr (List.forall₂_map_right_iff.mpr ?_)
  exact h.imp fun _ _ alike => ⟨alike.complaint, alike.input, .cons hstep alike.place⟩

theorem IssuesAlike.append {more more' : List Issue} (h : IssuesAlike L issues issues')
    (hmore : IssuesAlike L more more') : IssuesAlike L (issues ++ more) (issues' ++ more') :=
  List.rel_append h hmore

end

namespace Standing

/-- A relation between standings that checking further values keeps. -/
structure Congruence (R : Standing → Standing → Prop) : Prop where
  refl (s : Standing) : R s s
  floor {s t : Standing} : R s t → ∀ e, R (s.floor e) (t.floor e)
  addFields {s t : Standing} : R s t → ∀ n, R (s.addFields n) (t.addFields n)

theorem congruence_eq : Congruence (· = ·) where
  refl _ := rfl
  floor h _ := h ▸ rfl
  addFields h _ := h ▸ rfl

theorem congruence_true : Congruence fun _ _ => True where
  refl _ := trivial
  floor _ _ := trivial
  addFields _ _ := trivial

theorem Congruence.afterUnion {R : Standing → Standing → Prop} (hR : Congruence R) {s t : Standing}
    (h : R s t) (best : Standing) : R (s.afterUnion best) (t.afterUnion best) := by
  unfold Standing.afterUnion
  cases best.fields with
  | none => exact hR.floor h _
  | some n => exact hR.addFields (hR.floor h _) n

end Standing

namespace Verdict

variable {α β γ : Type}

/-- The second verdict accepts what the first one accepts, with the same result and a related
standing. A `full` match also refuses what the first one refuses, for issues that are alike, and
breaks off alike. -/
inductive Matches (full : Prop) (L : String → String → Prop) (R : Standing → Standing → Prop) :
    Verdict α → Verdict α → Prop
  | accepted {a : α} {s t : Standing} : R s t → Matches full L R (.accepted a s) (.accepted a t)
  | refused {issues issues' : List Issue} : IssuesAlike L issues issues' →
    Matches full L R (.refused issues) (.refused issues')
  | failed {failure : Failure} : (∀ issues, failure ≠ .invalid issues) →
    Matches full L R (.failed failure) (.failed failure)
  | unlike {v w : Verdict α} : ¬ full → (∀ a s, v ≠ .accepted a s) → Matches full L R v w

variable {full : Prop} {L : String → String → Prop} {R : Standing → Standing → Prop}
  {v w : Verdict α} {s t : Standing}

/-- The same complaint about the same value. -/
theorem Matches.refuse (complaint : Complaint) (input : Value) :
    Matches full L R (refuse complaint input : Verdict α) (refuse complaint input) :=
  .refused (.refl _)

theorem Matches.exists_accepted (h : Matches full L R v w) {a : α} (accepted : v = .accepted a s) :
    ∃ t, w = .accepted a t ∧ R s t := by
  cases h with
  | accepted hR =>
    cases accepted
    exact ⟨_, rfl, hR⟩
  | refused => cases accepted
  | failed => cases accepted
  | unlike _ never => exact absurd accepted (never _ _)

theorem Matches.map (h : Matches full L R v w) (f : α → β) : Matches full L R (v.map f) (w.map f) := by
  cases h with
  | accepted hR => exact .accepted hR
  | refused alike => exact .refused alike
  | failed other => exact .failed other
  | unlike partly never =>
    refine .unlike partly fun b s accepted => ?_
    obtain ⟨a, hv, _⟩ := map_eq_accepted_iff.mp accepted
    exact never a s hv

theorem Matches.under (h : Matches full L R v w) (step : Place) :
    Matches full L R (v.under step) (w.under step) := by
  cases h with
  | accepted hR => exact .accepted hR
  | refused alike => exact .refused (alike.under (.same step))
  | failed other => exact .failed other
  | unlike partly never =>
    exact .unlike partly fun a s accepted => never a s (under_eq_accepted_iff.mp accepted)

theorem Matches.andThen (h : Matches full L R v w) {next next' : α → Standing → Verdict β}
    (after : ∀ a s t, R s t → Matches full L R (next a s) (next' a t)) :
    Matches full L R (v.andThen next) (w.andThen next') := by
  cases h with
  | accepted hR => exact after _ _ _ hR
  | refused alike => exact .refused alike
  | failed other => exact .failed other
  | unlike partly never =>
    refine .unlike partly fun b s accepted => ?_
    obtain ⟨a, s₁, hv, _⟩ := andThen_eq_accepted_iff.mp accepted
    exact never a s₁ hv

theorem Matches.both (h : Matches full L R v w) (hst : R s t) {second second' : Standing → Verdict β}
    (after : ∀ s t, R s t → Matches full L R (second s) (second' t)) (f : α → β → γ) :
    Matches full L R (v.both s second f) (w.both t second' f) := by
  cases h with
  | accepted hR => exact (after _ _ hR).map _
  | refused alike =>
    -- The second check is made all the same, for its issues and in case it breaks off.
    have rest := after s t hst
    simp only [Verdict.both]
    generalize second s = x, second' t = y at rest
    cases rest with
    | accepted => exact .refused alike
    | refused more => exact .refused (alike.append more)
    | failed other => exact .failed other
    | unlike partly _ =>
      refine .unlike partly fun c s' accepted => ?_
      cases x <;> cases accepted
  | failed other => exact .failed other
  | unlike partly never =>
    refine .unlike partly fun c s' accepted => ?_
    obtain ⟨a, s₁, _, hv, _⟩ := both_eq_accepted_iff.mp accepted
    exact never a s₁ hv

end Verdict

/-! ## Single values -/

namespace Leaf

/-- A check that depends on the standing only to lower it. -/
def Steady (check : Value → Standing → Verdict Value) : Prop :=
  ∀ ⦃full : Prop⦄ ⦃L : String → String → Prop⦄ ⦃R : Standing → Standing → Prop⦄, Standing.Congruence R →
    ∀ (v : Value) ⦃s t : Standing⦄, R s t → (check v s).Matches full L R (check v t)

theorem steady_checkString (strict : Bool) : Steady (checkString strict) := by
  intro full L R hR v s t h
  unfold checkString
  split
  · exact .accepted h
  · split
    · exact .refuse _ _
    · split
      · exact .accepted (hR.floor h _)
      · exact .refuse _ _
  · exact .refuse _ _

theorem steady_integerOfText (text : String) : Steady (integerOfText text) := by
  intro full L R hR v s t h
  unfold integerOfText
  split
  · exact .accepted (hR.floor h _)
  · exact .refuse _ _
  · exact .refuse _ _

theorem steady_integerOfFloat (f : Float) : Steady (integerOfFloat f) := by
  intro full L R hR v s t h
  unfold integerOfFloat
  split
  · exact .refuse _ _
  · split
    · exact .refuse _ _
    · split
      · exact .accepted (hR.floor h _)
      · exact .refuse _ _

theorem steady_checkInteger (strict : Bool) : Steady (checkInteger strict) := by
  intro full L R hR v s t h
  unfold checkInteger
  split
  · exact .accepted h
  · split
    · exact .refuse _ _
    · split
      · exact .accepted (hR.floor h _)
      · exact steady_integerOfFloat _ hR _ h
      · exact steady_integerOfText _ hR _ h
      · split
        · exact steady_integerOfText _ hR _ h
        · exact .refuse _ _
      · exact .refuse _ _

theorem steady_finite (f : Float) : Steady (finite f) := by
  intro full L R hR v s t h
  unfold finite
  split
  · exact .accepted h
  · exact .refuse _ _

theorem steady_numberOfText (text : String) : Steady (numberOfText text) := by
  intro full L R hR v s t h
  unfold numberOfText
  split
  · exact steady_finite _ hR _ (hR.floor h _)
  · exact .refuse _ _

theorem steady_checkNumber (strict : Bool) : Steady (checkNumber strict) := by
  intro full L R hR v s t h
  unfold checkNumber
  split
  · exact steady_finite _ hR _ h
  · split
    · exact .accepted (hR.floor h _)
    · exact .refuse _ _
  · split
    · exact .refuse _ _
    · split
      · exact .accepted (hR.floor h _)
      · exact steady_numberOfText _ hR _ h
      · split
        · exact steady_numberOfText _ hR _ h
        · exact .refuse _ _
      · exact .refuse _ _

theorem steady_booleanOfText (text : String) : Steady (booleanOfText text) := by
  intro full L R hR v s t h
  unfold booleanOfText
  split
  · exact .accepted (hR.floor h _)
  · exact .refuse _ _

theorem steady_checkBoolean (strict : Bool) : Steady (checkBoolean strict) := by
  intro full L R hR v s t h
  unfold checkBoolean
  split
  · exact .accepted h
  · split
    · exact .refuse _ _
    · split
      · split
        · exact .accepted (hR.floor h _)
        · split
          · exact .accepted (hR.floor h _)
          · exact .refuse _ _
      · split
        · exact .accepted (hR.floor h _)
        · split
          · exact .accepted (hR.floor h _)
          · exact .refuse _ _
      · exact steady_booleanOfText _ hR _ h
      · split
        · exact steady_booleanOfText _ hR _ h
        · exact .refuse _ _
      · exact .refuse _ _

theorem steady_checkNull : Steady checkNull := by
  intro full L R hR v s t h
  unfold checkNull
  split
  · exact .accepted h
  · exact .refuse _ _

theorem steady_checkLiteral (expected : List Value) : Steady (checkLiteral expected) := by
  intro full L R hR v s t h
  unfold checkLiteral
  split
  · exact .refuse _ _
  · split
    · exact .accepted h
    · exact .refuse _ _

end Leaf

namespace Check

variable {full : Prop} {L : String → String → Prop} {E : List Nat → List Nat → Prop} {R : Standing → Standing → Prop}
  {s t : Standing}

/-- The second check matches the first one on all values. `E` relates the definitions that are being
applied to the value; it holds of a value of its own. -/
def Matches (full : Prop) (L : String → String → Prop) (E : List Nat → List Nat → Prop) (c c' : Check) : Prop :=
  ∀ ⦃e e' : List Nat⦄, E e e' → ∀ ⦃R : Standing → Standing → Prop⦄, Standing.Congruence R →
    ∀ (v : Value) ⦃s t : Standing⦄, R s t → (c e v s).Matches full L R (c' e' v t)

theorem matches_steady {check : Value → Standing → Verdict Value} (h : Leaf.Steady check) :
    Matches full L E (fun _ => check) fun _ => check :=
  fun _ _ _ _ hR v _ _ hst => h hR v hst

theorem matches_anything : Matches full L E anything anything :=
  fun _ _ _ _ hR _ _ _ hst => .accepted (hR.floor hst _)

theorem matches_call (function : Function) : Matches full L E (call function) (call function) := by
  intro e e' _ R hR v s t hst
  unfold call
  split
  · exact .accepted hst
  · exact .refuse _ _
  · exact .refuse _ _
  · exact .failed fun _ => Failure.noConfusion

/-! ## Lists and dictionaries -/

variable {c c' : Check}

theorem matches_elements (h : Matches full L E c c') (own : E [] []) (hR : Standing.Congruence R)
    (start : Nat) (vs : List Value) (hst : R s t) :
    (elements c start vs s).Matches full L R (elements c' start vs t) := by
  induction vs generalizing start s t with
  | nil => exact .accepted hst
  | cons v rest ih =>
    exact ((h own hR v hst).under _).both hst (fun _ _ hst => ih _ hst) _

theorem matches_list (h : Matches full L E c c') (own : E [] []) :
    Matches full L E (list c) (list c') := by
  intro e e' _ R hR v s t hst
  unfold list
  split
  · exact (matches_elements h own hR 0 _ hst).map _
  · exact (matches_elements h own hR 0 _ (hR.floor hst _)).map _
  · exact .refuse _ _

theorem matches_entries {keys keys' values values' : Check} (hkeys : Matches full L E keys keys')
    (hvalues : Matches full L E values values') (own : E [] []) (hR : Standing.Congruence R)
    (made given : List (Value × Value)) (hst : R s t) :
    (entries keys values made given s).Matches full L R (entries keys' values' made given t) := by
  induction given generalizing made s t with
  | nil => exact .accepted hst
  | cons entry rest ih =>
    obtain ⟨k, v⟩ := entry
    -- A key that is refused does not end it: the other entries are checked for their issues too.
    have first := (((hkeys own hR k hst).under (.key "[key]")).under (placeOfKey k)).both hst
      (fun _ _ hst => (hvalues own hR v hst).under (placeOfKey k)) Prod.mk
    simp only [entries]
    generalize Verdict.both _ s _ _ = x, Verdict.both _ t _ _ = y at first
    cases first with
    | @accepted made _ _ hst =>
      obtain ⟨k', v'⟩ := made
      dsimp only
      split
      · exact .failed fun _ => Failure.noConfusion
      · exact ih _ hst
    | refused alike =>
      have others := ih made hst
      dsimp only
      generalize entries keys values made rest s = x, entries keys' values' made rest t = y
        at others
      cases others with
      | accepted => exact .refused alike
      | refused more => exact .refused (alike.append more)
      | failed other => exact .failed other
      | unlike partly _ =>
        refine .unlike partly fun c s' accepted => ?_
        cases x <;> cases accepted
    | failed other => exact .failed other
    | unlike partly never =>
      refine .unlike partly fun result s' accepted => ?_
      cases x with
      | accepted a s₁ => exact never a s₁ rfl
      | refused =>
        dsimp only at accepted
        split at accepted <;> cases accepted
      | failed => cases accepted

theorem matches_dict {keys keys' values values' : Check} (hkeys : Matches full L E keys keys')
    (hvalues : Matches full L E values values') (own : E [] []) :
    Matches full L E (dict keys values) (dict keys' values') := by
  intro e e' _ R hR v s t hst
  unfold dict
  split
  · exact (matches_entries hkeys hvalues own hR [] _ hst).map _
  · exact .refuse _ _

/-! ## Tuples and objects -/

/-- Checks of items that match, with the same supply. -/
structure ItemCheck.Matches (full : Prop) (L : String → String → Prop) (E : List Nat → List Nat → Prop)
    (item item' : ItemCheck) : Prop where
  check : item.check.Matches full L E item'.check
  supply : item'.supply? = item.supply?

theorem ItemCheck.Matches.absent {item item' : ItemCheck} (h : item.Matches full L E item')
    (own : E [] []) (hR : Standing.Congruence R) (position : Nat) (container : Value)
    (hst : R s t) :
    (item.absent position container s).Matches full L R (item'.absent position container t) := by
  unfold ItemCheck.absent
  rw [h.supply]
  split
  · exact .accepted hst
  · exact (h.check own hR _ hst).under _
  · exact .refused (.refl _)

theorem matches_items {checks checks' : List ItemCheck}
    (h : List.Forall₂ (ItemCheck.Matches full L E) checks checks') (own : E [] [])
    (hR : Standing.Congruence R) (container : Value) (start : Nat) (given : List Value)
    (hst : R s t) :
    (items container start checks given s).Matches full L R
      (items container start checks' given t) := by
  induction h generalizing start given s t with
  | nil =>
    simp only [items]
    exact .accepted hst
  | cons first _ ih =>
    cases given with
    | nil => exact (first.absent own hR _ _ hst).both hst (fun _ _ hst => ih _ _ hst) _
    | cons v rest =>
      exact ((first.check own hR v hst).under _).both hst (fun _ _ hst => ih _ _ hst) _

theorem matches_itemsOf {checks checks' : List ItemCheck}
    (h : List.Forall₂ (ItemCheck.Matches full L E) checks checks') (own : E [] [])
    (hR : Standing.Congruence R) (container : Value) (given : List Value) (hst : R s t) :
    (itemsOf container checks given s).Matches full L R (itemsOf container checks' given t) := by
  have checked := matches_items h own hR container 0 given hst
  simp only [itemsOf, ← h.length_eq]
  split
  · generalize items container 0 checks given s = x, items container 0 checks' given t = y
      at checked
    cases checked with
    | accepted => exact .refuse _ _
    | refused => exact .refuse _ _
    | failed other => exact .failed other
    | unlike partly _ =>
      refine .unlike partly fun c s' accepted => ?_
      cases x <;> cases accepted
  · exact checked.map _

theorem matches_tuple {checks checks' : List ItemCheck}
    (h : List.Forall₂ (ItemCheck.Matches full L E) checks checks') (own : E [] []) :
    Matches full L E (tuple checks) (tuple checks') := by
  intro e e' _ R hR v s t hst
  unfold tuple
  split
  · exact matches_itemsOf h own hR _ _ hst
  · exact matches_itemsOf h own hR _ _ (hR.floor hst _)
  · exact .refuse _ _

/-- Checks of properties that match, with the same name and supply. -/
structure FieldCheck.Matches (full : Prop) (L : String → String → Prop) (E : List Nat → List Nat → Prop)
    (field field' : FieldCheck) : Prop where
  name : field'.name = field.name
  required : field'.required = field.required
  check : field.check.Matches full L E field'.check
  supply : field'.supply? = field.supply?

theorem FieldCheck.Matches.run {field field' : FieldCheck} (h : field.Matches full L E field')
    (own : E [] []) (hR : Standing.Congruence R) (container : Value)
    (given : List (Value × Value)) (hst : R s t) :
    (field.run container given s).Matches full L R (field'.run container given t) := by
  unfold FieldCheck.run
  rw [h.name, h.required, h.supply]
  split
  · exact ((h.check own hR _ hst).under _).map _
  · split
    · exact .accepted hst
    · exact ((h.check own hR _ hst).under _).map _
    · split
      · exact .refused (.refl _)
      · exact .accepted hst

theorem matches_fields {checks checks' : List FieldCheck}
    (h : List.Forall₂ (FieldCheck.Matches full L E) checks checks') (own : E [] [])
    (hR : Standing.Congruence R) (container : Value) (given : List (Value × Value))
    (hst : R s t) :
    (fields container given checks s).Matches full L R (fields container given checks' t) := by
  induction h generalizing s t with
  | nil => exact .accepted hst
  | cons first _ ih =>
    simp only [fields, first.name]
    exact (first.run own hR container given hst).both hst (fun _ _ hst => ih hst) _

theorem matches_object {checks checks' : List FieldCheck}
    (h : List.Forall₂ (FieldCheck.Matches full L E) checks checks') (own : E [] []) :
    Matches full L E (object checks) (object checks') := by
  intro e e' _ R hR v s t hst
  unfold object
  split
  · exact (matches_fields h own hR _ _ hst).andThen fun _ _ _ hst => .accepted (hR.addFields hst _)
  · exact .refuse _ _

/-! ## Alternatives and wrappers -/

/-- Checks of choices that match, with labels that `L` relates. -/
structure ChoiceCheck.Matches (full : Prop) (L : String → String → Prop)
    (E : List Nat → List Nat → Prop) (choice choice' : ChoiceCheck) : Prop where
  label : L (choice.label ()) (choice'.label ())
  check : choice.check.Matches full L E choice'.check

/-- Which choice is taken depends on what the choices refuse. -/
theorem matches_tryChoices {choices choices' : List ChoiceCheck} (hfull : full)
    (h : List.Forall₂ (ChoiceCheck.Matches full L E) choices choices')
    {e e' : List Nat} (he : E e e') (hR : Standing.Congruence R) (v : Value) (hst : R s t)
    (best : Option (Value × Standing)) {issues issues' : List Issue}
    (alike : IssuesAlike L issues issues') :
    (tryChoices e v s best issues choices).Matches full L R
      (tryChoices e' v t best issues' choices') := by
  induction h generalizing best issues issues' with
  | nil =>
    cases best with
    | none => exact .refused alike
    | some known => exact .accepted (hR.afterUnion hst _)
  | @cons choice choice' rest rest' first _ ih =>
    -- Each choice is tried from a fresh standing, so how well it does is the same on both sides.
    have tried := first.check he Standing.congruence_eq v (rfl : Standing.fresh = Standing.fresh)
    rw [tryChoices, tryChoices]
    generalize choice.check e v .fresh = x, choice'.check e' v .fresh = y at tried
    cases tried with
    | accepted same =>
      subst same
      dsimp only
      split
      · exact .accepted (hR.refl _)
      · exact ih _ alike
    | refused more =>
      refine ih _ ?_
      cases best with
      | none => exact alike.append (more.under (.label first.label))
      | some known => exact alike
    | failed other => exact .failed other
    | unlike partly _ => exact absurd hfull partly

theorem matches_union {choices choices' : List ChoiceCheck} (hfull : full)
    (h : List.Forall₂ (ChoiceCheck.Matches full L E) choices choices') :
    Matches full L E (union choices) (union choices') := by
  intro e e' he R hR v s t hst
  unfold union
  cases h with
  | nil => exact .refused .nil
  | cons first rest =>
    cases rest with
    | nil => exact first.check he hR v hst
    | cons second rest =>
      exact matches_tryChoices hfull (.cons first (.cons second rest)) he hR v hst none .nil

theorem matches_nullable (h : Matches full L E c c') : Matches full L E (nullable c) (nullable c') := by
  intro e e' he R hR v s t hst
  unfold nullable
  split
  · exact .accepted hst
  · exact h he hR _ hst

theorem matches_ifMissing (h : Matches full L E c c') (result : Value) :
    Matches full L E (ifMissing result c) (ifMissing result c') := by
  intro e e' he R hR v s t hst
  unfold ifMissing
  split
  · exact .accepted hst
  · exact h he hR _ hst

theorem matches_chain {first first' second second' : Check} (hfirst : Matches full L E first first')
    (hsecond : Matches full L E second second') (own : E [] []) :
    Matches full L E (chain first second) (chain first' second') := by
  intro e e' he R hR v s t hst
  refine (hfirst he hR v hst).andThen fun result s t hst => hsecond ?_ hR result hst
  split
  · exact he
  · exact own

end Check

end Schemata
