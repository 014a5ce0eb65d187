import Mathlib.Data.List.Forall2
import Schemata.Validation.Container

/-!
# What checks give

The results that a check can accept, told part by part: each combination of checks gives what is made
of the results of its parts. Nothing is said about values that are refused.
-/

namespace Schemata

namespace Verdict

variable {α β γ : Type} {v : Verdict α} {s s' : Standing}

@[simp, grind =] theorem map_eq_accepted_iff {f : α → β} {b : β} :
    v.map f = .accepted b s ↔ ∃ a, v = .accepted a s ∧ f a = b := by
  cases v <;> simp [map, and_comm]

@[simp, grind =] theorem andThen_eq_accepted_iff {next : α → Standing → Verdict β} {b : β} :
    v.andThen next = .accepted b s' ↔ ∃ a s, v = .accepted a s ∧ next a s = .accepted b s' := by
  cases v <;> simp [andThen]

@[simp, grind =] theorem under_eq_accepted_iff {step : Place} {a : α} :
    v.under step = .accepted a s ↔ v = .accepted a s := by
  cases v <;> simp [under]

@[simp, grind =] theorem both_eq_accepted_iff {second : Standing → Verdict β} {f : α → β → γ} {c : γ} :
    v.both s second f = .accepted c s' ↔
      ∃ a s₁ b, v = .accepted a s₁ ∧ second s₁ = .accepted b s' ∧ f a b = c := by
  cases v with
  | accepted a s₁ => simp [both]
  | refused issues =>
    simp only [both]
    split <;> simp
  | failed => simp [both]

@[simp, grind =] theorem toExcept_eq_ok_iff {a : α} : v.toExcept = .ok a ↔ ∃ s, v = .accepted a s := by
  cases v <;> simp [toExcept]

end Verdict

theorem mem_setEntry {key value : Value} {entries : List (Value × Value)} {entry : Value × Value}
    (h : entry ∈ setEntry key value entries) :
    (entry.1 = key ∨ ∃ e ∈ entries, entry.1 = e.1) ∧
      (entry.2 = value ∨ ∃ e ∈ entries, entry.2 = e.2) := by
  induction entries with
  | nil =>
    obtain rfl := List.mem_singleton.mp h
    exact ⟨.inl rfl, .inl rfl⟩
  | cons e rest ih =>
    obtain ⟨k, v⟩ := e
    simp only [setEntry] at h
    split at h
    · rcases List.mem_cons.mp h with rfl | h
      · exact ⟨.inr ⟨_, List.mem_cons_self, rfl⟩, .inl rfl⟩
      · have among := List.mem_cons_of_mem (k, v) h
        exact ⟨.inr ⟨_, among, rfl⟩, .inr ⟨_, among, rfl⟩⟩
    · rcases List.mem_cons.mp h with rfl | h
      · exact ⟨.inr ⟨_, List.mem_cons_self, rfl⟩, .inr ⟨_, List.mem_cons_self, rfl⟩⟩
      · obtain ⟨hkey, hvalue⟩ := ih h
        refine ⟨hkey.imp_right ?_, hvalue.imp_right ?_⟩
        · rintro ⟨e, he, h⟩
          exact ⟨e, List.mem_cons_of_mem _ he, h⟩
        · rintro ⟨e, he, h⟩
          exact ⟨e, List.mem_cons_of_mem _ he, h⟩

namespace Check

/-- Whatever the check accepts, the result has a property. -/
def Gives (check : Check) (P : Value → Prop) : Prop :=
  ∀ ⦃entered : List Nat⦄ ⦃v r : Value⦄ ⦃s s' : Standing⦄, check entered v s = .accepted r s' → P r

variable {check : Check} {P Q : Value → Prop} {s s' : Standing}

theorem Gives.imp (h : check.Gives P) (hPQ : ∀ v, P v → Q v) : check.Gives Q :=
  fun _ _ _ _ _ accepted => hPQ _ (h accepted)

/-! ## Lists -/

theorem elements_gives (h : check.Gives P) {start : Nat} {vs rs : List Value}
    (accepted : elements check start vs s = .accepted rs s') : ∀ r ∈ rs, P r := by
  induction vs generalizing start s rs with
  | nil =>
    cases accepted
    exact fun _ hr => absurd hr List.not_mem_nil
  | cons v vs ih =>
    obtain ⟨r, s₁, rest, first, others, rfl⟩ := Verdict.both_eq_accepted_iff.mp accepted
    exact List.forall_mem_cons.mpr ⟨h (Verdict.under_eq_accepted_iff.mp first), ih others⟩

theorem list_gives (h : check.Gives P) :
    (list check).Gives fun r => ∃ items, r = .list items ∧ ∀ v ∈ items, P v := by
  intro entered v r s s' accepted
  unfold list at accepted
  split at accepted
  case h_3 => cases accepted
  all_goals
    obtain ⟨items, hitems, rfl⟩ := Verdict.map_eq_accepted_iff.mp accepted
    exact ⟨items, rfl, elements_gives h hitems⟩

/-! ## Dictionaries -/

theorem entries_gives {keys values : Check} (hkeys : keys.Gives P) (hvalues : values.Gives Q)
    {made given result : List (Value × Value)} (before : ∀ e ∈ made, P e.1 ∧ Q e.2)
    (accepted : entries keys values made given s = .accepted result s') :
    ∀ e ∈ result, P e.1 ∧ Q e.2 := by
  induction given generalizing made s with
  | nil =>
    cases accepted
    exact before
  | cons entry rest ih =>
    obtain ⟨k, v⟩ := entry
    simp only [entries] at accepted
    split at accepted
    case h_1 k' v' s₁ hentry =>
      obtain ⟨_, _, _, hk, hv, heq⟩ := Verdict.both_eq_accepted_iff.mp hentry
      obtain ⟨rfl, rfl⟩ := Prod.mk.inj heq
      have hk' := hkeys (Verdict.under_eq_accepted_iff.mp (Verdict.under_eq_accepted_iff.mp hk))
      have hv' := hvalues (Verdict.under_eq_accepted_iff.mp hv)
      split at accepted
      · cases accepted
      · refine ih ?_ accepted
        intro e he
        obtain ⟨hkey, hvalue⟩ := mem_setEntry he
        constructor
        · rcases hkey with h | ⟨e', he', h⟩
          · exact h ▸ hk'
          · exact h ▸ (before e' he').1
        · rcases hvalue with h | ⟨e', he', h⟩
          · exact h ▸ hv'
          · exact h ▸ (before e' he').2
    case h_2 => split at accepted <;> cases accepted
    case h_3 => cases accepted

theorem dict_gives {keys values : Check} (hkeys : keys.Gives P) (hvalues : values.Gives Q) :
    (dict keys values).Gives fun r =>
      ∃ entries, r = .dict entries ∧ ∀ e ∈ entries, P e.1 ∧ Q e.2 := by
  intro entered v r s s' accepted
  unfold dict at accepted
  split at accepted
  · obtain ⟨made, hmade, rfl⟩ := Verdict.map_eq_accepted_iff.mp accepted
    exact ⟨made, rfl, entries_gives hkeys hvalues (fun _ h => absurd h List.not_mem_nil) hmade⟩
  · cases accepted

/-! ## Tuples -/

/-- What a check gives, and what stands for a missing value, has a property. -/
structure Supplies (check : Check) (supply? : Option Supply) (P : Value → Prop) : Prop where
  gives : check.Gives P
  copy {v : Value} : supply? = some (.copy v) → P v

section

variable {ι : Type} {made : ι → Value → Prop} {is : List ι}

theorem items_gives {container : Value} {start : Nat} {checks : List ItemCheck}
    (h : List.Forall₂ (fun item i => Supplies item.check item.supply? (made i)) checks is)
    {given rs : List Value} (accepted : items container start checks given s = .accepted rs s') :
    List.Forall₂ made is rs := by
  induction h generalizing start given s rs with
  | nil =>
    simp only [items] at accepted
    cases accepted
    exact .nil
  | @cons item i others is first _ ih =>
    cases given with
    | nil =>
      obtain ⟨r, s₁, rest, hr, hrest, rfl⟩ := Verdict.both_eq_accepted_iff.mp accepted
      refine .cons ?_ (ih hrest)
      unfold ItemCheck.absent at hr
      split at hr
      next v hsupply =>
        cases hr
        exact first.copy hsupply
      next => exact first.gives (Verdict.under_eq_accepted_iff.mp hr)
      next => cases hr
    | cons v vs =>
      obtain ⟨r, s₁, rest, hr, hrest, rfl⟩ := Verdict.both_eq_accepted_iff.mp accepted
      exact .cons (first.gives (Verdict.under_eq_accepted_iff.mp hr)) (ih hrest)

theorem itemsOf_gives {container : Value} {checks : List ItemCheck}
    (h : List.Forall₂ (fun item i => Supplies item.check item.supply? (made i)) checks is)
    {given : List Value} {r : Value}
    (accepted : itemsOf container checks given s = .accepted r s') :
    ∃ items, r = .tuple items ∧ List.Forall₂ made is items := by
  unfold itemsOf at accepted
  simp only at accepted
  split at accepted
  · split at accepted <;> cases accepted
  · obtain ⟨items, hitems, rfl⟩ := Verdict.map_eq_accepted_iff.mp accepted
    exact ⟨items, rfl, items_gives h hitems⟩

theorem tuple_gives {checks : List ItemCheck}
    (h : List.Forall₂ (fun item i => Supplies item.check item.supply? (made i)) checks is) :
    (tuple checks).Gives fun r => ∃ items, r = .tuple items ∧ List.Forall₂ made is items := by
  intro entered v r s s' accepted
  unfold tuple at accepted
  split at accepted
  · exact itemsOf_gives h accepted
  · exact itemsOf_gives h accepted
  · cases accepted

end

/-! ## Objects -/

/-- The check of a property gives values of some kind under a name. Only if `lacks` does it leave the
property out. -/
structure FieldCheck.Makes (field : FieldCheck) (name : String) (P : Value → Prop) (lacks : Prop) :
    Prop where
  name : field.name = name
  supplies : Supplies field.check field.supply? P
  lacks : field.required = false → field.supply? = none → lacks

theorem FieldCheck.Makes.run {field : FieldCheck} {name : String} {lacks : Prop}
    (h : field.Makes name P lacks) {container : Value} {given : List (Value × Value)}
    {result : Option Value × Nat} (accepted : field.run container given s = .accepted result s') :
    (∃ v, result.1 = some v ∧ P v) ∨ (result.1 = none ∧ lacks) := by
  unfold FieldCheck.run at accepted
  split at accepted
  · obtain ⟨r, hr, rfl⟩ := Verdict.map_eq_accepted_iff.mp accepted
    exact .inl ⟨r, rfl, h.supplies.gives (Verdict.under_eq_accepted_iff.mp hr)⟩
  · split at accepted
    next v hsupply =>
      cases accepted
      exact .inl ⟨v, rfl, h.supplies.copy hsupply⟩
    next =>
      obtain ⟨r, hr, rfl⟩ := Verdict.map_eq_accepted_iff.mp accepted
      exact .inl ⟨r, rfl, h.supplies.gives (Verdict.under_eq_accepted_iff.mp hr)⟩
    next hsupply =>
      split at accepted
      · cases accepted
      next optional =>
        cases accepted
        exact .inr ⟨rfl, h.lacks (Bool.eq_false_iff.mpr optional) hsupply⟩

section

variable {ι : Type} {name : ι → String} {made : ι → Value → Prop} {lacks : ι → Prop} {is : List ι}

/-- Every entry belongs to a property, and every property that may not be lacking has an entry. -/
theorem fields_gives {container : Value} {given : List (Value × Value)} {checks : List FieldCheck}
    (h : List.Forall₂ (fun field i => FieldCheck.Makes field (name i) (made i) (lacks i)) checks is)
    {result : List (Value × Value) × Nat}
    (accepted : fields container given checks s = .accepted result s') :
    (∀ e ∈ result.1, ∃ i ∈ is, e.1 = .str (name i) ∧ made i e.2) ∧
      ∀ i ∈ is, ¬ lacks i → .str (name i) ∈ result.1.map (·.1) := by
  induction h generalizing s result with
  | nil =>
    cases accepted
    exact ⟨fun _ h => absurd h List.not_mem_nil, fun _ h => absurd h List.not_mem_nil⟩
  | @cons field i rest is first _ ih =>
    obtain ⟨found, s₁, others, hfound, hothers, rfl⟩ := Verdict.both_eq_accepted_iff.mp accepted
    obtain ⟨entries, present⟩ := ih hothers
    have later : ∀ e ∈ others.1, ∃ j ∈ i :: is, e.1 = .str (name j) ∧ made j e.2 := by
      intro e he
      obtain ⟨j, hj, h⟩ := entries e he
      exact ⟨j, List.mem_cons_of_mem _ hj, h⟩
    unfold consField
    rcases first.run hfound with ⟨v, hv, hmade⟩ | ⟨hnone, hlacks⟩
    · simp only [hv, first.name]
      constructor
      · exact List.forall_mem_cons.mpr ⟨⟨i, List.mem_cons_self, rfl, hmade⟩, later⟩
      · refine List.forall_mem_cons.mpr ⟨fun _ => List.mem_cons_self, ?_⟩
        exact fun j hj given => List.mem_cons_of_mem _ (present j hj given)
    · simp only [hnone]
      exact ⟨later, List.forall_mem_cons.mpr ⟨fun given => absurd hlacks given, present⟩⟩

theorem object_gives {checks : List FieldCheck}
    (h : List.Forall₂ (fun field i => FieldCheck.Makes field (name i) (made i) (lacks i)) checks is) :
    (object checks).Gives fun r => ∃ entries, r = .dict entries ∧
      (∀ e ∈ entries, ∃ i ∈ is, e.1 = .str (name i) ∧ made i e.2) ∧
      ∀ i ∈ is, ¬ lacks i → .str (name i) ∈ entries.map (·.1) := by
  intro entered v r s s' accepted
  unfold object at accepted
  split at accepted
  · obtain ⟨others, s₁, hmade, hr⟩ := Verdict.andThen_eq_accepted_iff.mp accepted
    cases hr
    exact ⟨others.1, rfl, fields_gives h hmade⟩
  · cases accepted

end

/-! ## Alternatives and wrappers -/

theorem tryChoices_gives {entered : List Nat} {v r : Value} {choices : List ChoiceCheck}
    (h : ∀ choice ∈ choices, choice.check.Gives P) {best : Option (Value × Standing)}
    (hbest : ∀ known, best = some known → P known.1) {issues : List Issue}
    (accepted : tryChoices entered v s best issues choices = .accepted r s') : P r := by
  induction choices generalizing best issues with
  | nil =>
    cases best with
    | none => cases accepted
    | some known =>
      cases accepted
      exact hbest known rfl
  | cons choice rest ih =>
    obtain ⟨first, others⟩ := List.forall_mem_cons.mp h
    rw [tryChoices] at accepted
    split at accepted
    next => cases accepted
    next => exact ih others hbest accepted
    next result standing hresult =>
      have hP := first hresult
      split at accepted
      · cases accepted
        exact hP
      · refine ih others ?_ accepted
        intro known hknown
        have whichever (better : Bool)
            (h : (if better then some (result, standing) else best) = some known) : P known.1 := by
          cases better with
          | true => cases h; exact hP
          | false => exact hbest known h
        exact whichever _ hknown

theorem union_gives {choices : List ChoiceCheck} (h : ∀ choice ∈ choices, choice.check.Gives P) :
    (union choices).Gives P := by
  intro entered v r s s' accepted
  unfold union at accepted
  split at accepted
  next choice => exact h choice List.mem_cons_self accepted
  next => exact tryChoices_gives h (by simp) accepted

theorem nullable_gives (h : check.Gives P) : (nullable check).Gives fun r => r = .none ∨ P r := by
  intro entered v r s s' accepted
  unfold nullable at accepted
  split at accepted
  · cases accepted
    exact .inl rfl
  · exact .inr (h accepted)

theorem ifMissing_gives (h : check.Gives P) (result : Value) :
    (ifMissing result check).Gives fun r => r = result ∨ P r := by
  intro entered v r s s' accepted
  unfold ifMissing at accepted
  split at accepted
  · cases accepted
    exact .inl rfl
  · exact .inr (h accepted)

theorem chain_gives {first second : Check} (h : second.Gives P) : (chain first second).Gives P := by
  intro entered v r s s' accepted
  obtain ⟨_, _, _, hsecond⟩ := Verdict.andThen_eq_accepted_iff.mp accepted
  exact h hsecond

end Check

end Schemata
