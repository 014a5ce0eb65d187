import Schemata.Proofs.Validation.Checks

/-!
# Parts of values

Places inside values, and what the checks of containers do at them: if a container is accepted, the
check of its parts has taken each part as a value of its own, and the result of a part stands where
the part stood.
-/

namespace Schemata

/-- A place in a value. -/
inductive Spot where
  /-- What a dictionary holds under a text. -/
  | key (name : String)
  /-- A position of a list or tuple. -/
  | position (n : Nat)
  /-- The value of the entry at a position of a dictionary. -/
  | entry (n : Nat)

namespace Value

/-- The part at a place. -/
def part? : Value → Spot → Option Value
  | .list items, .position n => items[n]?
  | .tuple items, .position n => items[n]?
  | .dict entries, .key name => entry? name entries
  | .dict entries, .entry n => (entries[n]?).map (·.2)
  | _, _ => Option.none

/-- The part at places of which each is inside the one before it. -/
def partAt? (v : Value) : List Spot → Option Value
  | [] => some v
  | spot :: rest => (v.part? spot).bind fun x => x.partAt? rest

/-- A value with a part is neither nothing nor absent. -/
theorem solid_of_part {v x : Value} {spot : Spot} (h : v.part? spot = some x) :
    v ≠ .none ∧ v.isMissing = false := by
  cases v <;> first | cases h | exact ⟨Value.noConfusion, rfl⟩

end Value

theorem entry?_cons_str (name key : String) (v : Value) (entries : List (Value × Value)) :
    entry? name ((.str key, v) :: entries)
      = if key = name then some v else entry? name entries := by
  have same : (Value.str key).equal (.str name) = (key == name) := by
    rw [Value.equal, Value.equalAtoms] <;> simp
  unfold entry?
  rw [List.find?_cons]
  dsimp only
  rw [same]
  by_cases h : key = name
  · simp [h]
  · simp [h, beq_false_of_ne h]

namespace Check

/-- The check takes `x` as a value of its own and gives `r`. -/
def Takes (c : Check) (x r : Value) : Prop :=
  ∃ s s', c [] x s = .accepted r s'

variable {c : Check} {s s' : Standing}

theorem elements_takes {start : Nat} {vs rs : List Value}
    (accepted : elements c start vs s = .accepted rs s') : List.Forall₂ c.Takes vs rs := by
  induction vs generalizing start s rs with
  | nil =>
    cases accepted
    exact .nil
  | cons v vs ih =>
    obtain ⟨r, s₁, rest, first, others, rfl⟩ := Verdict.both_eq_accepted_iff.mp accepted
    exact .cons ⟨s, s₁, Verdict.under_eq_accepted_iff.mp first⟩ (ih others)

/-- A list that is accepted was a sequence whose items were taken. -/
theorem list_takes {entered : List Nat} {v r : Value}
    (accepted : list c entered v s = .accepted r s') :
    ∃ items results, (v = .list items ∨ v = .tuple items) ∧ r = .list results ∧
      List.Forall₂ c.Takes items results := by
  unfold list at accepted
  split at accepted
  case h_1 items =>
    obtain ⟨results, hresults, rfl⟩ := Verdict.map_eq_accepted_iff.mp accepted
    exact ⟨items, results, .inl rfl, rfl, elements_takes hresults⟩
  case h_2 items =>
    obtain ⟨results, hresults, rfl⟩ := Verdict.map_eq_accepted_iff.mp accepted
    exact ⟨items, results, .inr rfl, rfl, elements_takes hresults⟩
  case h_3 => cases accepted

theorem entries_takes {keys values : Check} {made given result : List (Value × Value)}
    (accepted : entries keys values made given s = .accepted result s') :
    ∀ entry ∈ given, ∃ r, values.Takes entry.2 r := by
  induction given generalizing made s with
  | nil => exact fun _ h => absurd h List.not_mem_nil
  | cons entry rest ih =>
    obtain ⟨k, v⟩ := entry
    simp only [entries] at accepted
    split at accepted
    case h_1 k' v' s₁ hentry =>
      obtain ⟨_, s₂, r, _, hv, _⟩ := Verdict.both_eq_accepted_iff.mp hentry
      split at accepted
      · cases accepted
      · exact List.forall_mem_cons.mpr
          ⟨⟨r, s₂, s₁, Verdict.under_eq_accepted_iff.mp hv⟩, ih accepted⟩
    case h_2 => split at accepted <;> cases accepted
    case h_3 => cases accepted

/-- A dictionary that is accepted had values that were taken. -/
theorem dict_takes {keys values : Check} {entered : List Nat} {v r : Value}
    (accepted : dict keys values entered v s = .accepted r s') :
    ∃ given, v = .dict given ∧ ∀ entry ∈ given, ∃ r, values.Takes entry.2 r := by
  unfold dict at accepted
  split at accepted
  case h_1 given =>
    obtain ⟨made, hmade, rfl⟩ := Verdict.map_eq_accepted_iff.mp accepted
    exact ⟨given, rfl, entries_takes hmade⟩
  case h_2 => cases accepted

/-- Every given item was taken by the check at its position, and its result stands there. -/
def TakesItems (checks : List ItemCheck) (given results : List Value) : Prop :=
  ∀ ⦃n : Nat⦄ ⦃item : ItemCheck⦄ ⦃x : Value⦄, checks[n]? = some item → given[n]? = some x →
    ∃ r, item.check.Takes x r ∧ results[n]? = some r

theorem items_takes {container : Value} {start : Nat} {checks : List ItemCheck}
    {given results : List Value}
    (accepted : items container start checks given s = .accepted results s') :
    TakesItems checks given results := by
  intro n item x hitem hx
  induction n generalizing checks given start s results with
  | zero =>
    obtain _ | ⟨v, given⟩ := given
    · cases hx
    obtain _ | ⟨first, others⟩ := checks
    · cases hitem
    cases hx
    cases hitem
    obtain ⟨r, s₁, rest, hr, _, rfl⟩ := Verdict.both_eq_accepted_iff.mp accepted
    exact ⟨r, ⟨s, s₁, Verdict.under_eq_accepted_iff.mp hr⟩, rfl⟩
  | succ n ih =>
    obtain _ | ⟨v, given⟩ := given
    · cases hx
    obtain _ | ⟨first, others⟩ := checks
    · cases hitem
    obtain ⟨r, s₁, rest, _, hrest, rfl⟩ := Verdict.both_eq_accepted_iff.mp accepted
    exact ih hrest hitem hx

theorem itemsOf_takes {container : Value} {checks : List ItemCheck} {given : List Value} {r : Value}
    (accepted : itemsOf container checks given s = .accepted r s') :
    ∃ results, r = .tuple results ∧ TakesItems checks given results := by
  unfold itemsOf at accepted
  simp only at accepted
  split at accepted
  · split at accepted <;> cases accepted
  · obtain ⟨results, hresults, rfl⟩ := Verdict.map_eq_accepted_iff.mp accepted
    exact ⟨results, rfl, items_takes hresults⟩

/-- A tuple that is accepted was a sequence, and the items that it had were taken. -/
theorem tuple_takes {checks : List ItemCheck} {entered : List Nat} {v r : Value}
    (accepted : tuple checks entered v s = .accepted r s') :
    ∃ given results, (v = .list given ∨ v = .tuple given) ∧ r = .tuple results ∧
      TakesItems checks given results := by
  unfold tuple at accepted
  split at accepted
  case h_1 given =>
    obtain ⟨results, rfl, taken⟩ := itemsOf_takes accepted
    exact ⟨given, results, .inr rfl, rfl, taken⟩
  case h_2 given =>
    obtain ⟨results, rfl, taken⟩ := itemsOf_takes accepted
    exact ⟨given, results, .inl rfl, rfl, taken⟩
  case h_3 => cases accepted

/-- The properties with other names do not hide what is made under a name. -/
theorem entry?_consField {name key : String} (h : key ≠ name) (field : Option Value × Nat)
    (rest : List (Value × Value) × Nat) :
    entry? name (consField key field rest).1 = entry? name rest.1 := by
  unfold consField
  split
  · rw [entry?_cons_str, if_neg h]
  · rfl

/-- Every given property was taken by the check with its name, and its result stands under the name.
-/
def TakesFields (checks : List FieldCheck) (given made : List (Value × Value)) : Prop :=
  ∀ ⦃name : String⦄ ⦃field : FieldCheck⦄ ⦃x : Value⦄,
    checks.find? (·.name == name) = some field → entry? name given = some x →
      ∃ r, field.check.Takes x r ∧ entry? name made = some r

theorem fields_takes {container : Value} {given : List (Value × Value)} {checks : List FieldCheck}
    {result : List (Value × Value) × Nat}
    (accepted : fields container given checks s = .accepted result s') :
    TakesFields checks given result.1 := by
  intro name field x hfield hx
  induction checks generalizing s result with
  | nil => cases hfield
  | cons first rest ih =>
    obtain ⟨made, s₁, others, hmade, hothers, rfl⟩ := Verdict.both_eq_accepted_iff.mp accepted
    by_cases same : first.name = name
    · simp only [List.find?_cons, same, beq_self_eq_true, Option.some.injEq] at hfield
      subst hfield
      unfold FieldCheck.run at hmade
      simp only [same, hx] at hmade
      obtain ⟨r, hr, rfl⟩ := Verdict.map_eq_accepted_iff.mp hmade
      refine ⟨r, ⟨s, s₁, Verdict.under_eq_accepted_iff.mp hr⟩, ?_⟩
      simp only [consField]
      rw [entry?_cons_str, if_pos same]
    · rw [List.find?_cons, beq_false_of_ne same] at hfield
      rw [entry?_consField same]
      exact ih hothers hfield

/-- An object that is accepted was a dictionary, and the properties that it had were taken. -/
theorem object_takes {checks : List FieldCheck} {entered : List Nat} {v r : Value}
    (accepted : object checks entered v s = .accepted r s') :
    ∃ given made, v = .dict given ∧ r = .dict made ∧ TakesFields checks given made := by
  unfold object at accepted
  split at accepted
  case h_1 given =>
    obtain ⟨result, s₁, hresult, hr⟩ := Verdict.andThen_eq_accepted_iff.mp accepted
    cases hr
    exact ⟨given, result.1, rfl, rfl, fields_takes hresult⟩
  case h_2 => cases accepted

/-! ## Wrappers -/

theorem nullable_eq {v : Value} (h : v ≠ .none) (entered : List Nat) (s : Standing) :
    nullable c entered v s = c entered v s := by
  cases v with
  | none => exact absurd rfl h
  | _ => rfl

theorem ifMissing_eq {v : Value} (h : v.isMissing = false) (result : Value) (entered : List Nat)
    (s : Standing) : ifMissing result c entered v s = c entered v s := by
  unfold ifMissing
  rw [h]
  rfl

end Check

end Schemata
