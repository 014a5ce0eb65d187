import Schemata.Proofs.Schema.Graph
import Schemata.StaticType.View

/-!
# Looking fields up

Looking a field up does not fail where all of its references can be replaced. Nor does it fail for an
unknown name, but only for a text whose evaluation fails in another way.
-/

namespace Schemata

namespace Names

variable {entries : List (String × StaticType)} {failing : String → Option Fault}

mutual

/-- Where the references of a type can be replaced, there is no fault. -/
theorem faultIn_of_evaluateIn {opened : List String} {t u : StaticType}
    (h : evaluateIn entries opened t = some u) : faultIn failing entries opened t = none := by
  -- Both go through the same references in the same order. A name that is open is left as it is, and
  -- any other one is followed to its type, with fewer names that can be opened.
  match t with
  | .reference name =>
    rw [faultIn]
    split
    · rfl
    · next closed =>
      rw [evaluateIn, dif_neg closed] at h
      split
      · next unknown =>
        split at h
        · cases h
        · next target found =>
          rw [found] at unknown
          cases unknown
      · next target found =>
        split at h
        · cases h
        · next target' found' =>
          obtain rfl := Option.some.inj (found.symm.trans found')
          have := closedCount_cons_lt found (by simpa using closed)
          exact faultIn_of_evaluateIn h
  | .schema _ (some args) =>
    rw [evaluateIn] at h
    obtain ⟨us, hus, _⟩ := Option.map_eq_some_iff.mp h
    rw [faultIn]
    exact faultInAny_of_evaluateAll hus
  | .list item =>
    rw [evaluateIn] at h
    obtain ⟨v, hv, _⟩ := Option.map_eq_some_iff.mp h
    rw [faultIn]
    exact faultIn_of_evaluateIn hv
  | .dict key value =>
    rw [evaluateIn] at h
    obtain ⟨k, hk, h⟩ := Option.bind_eq_some_iff.mp h
    obtain ⟨v, hv, _⟩ := Option.bind_eq_some_iff.mp h
    rw [faultIn, faultIn_of_evaluateIn hk, faultIn_of_evaluateIn hv]
    simp
  | .tuple items =>
    rw [evaluateIn] at h
    obtain ⟨us, hus, _⟩ := Option.map_eq_some_iff.mp h
    rw [faultIn]
    exact faultInAny_of_evaluateAll hus
  | .union members =>
    rw [evaluateIn] at h
    obtain ⟨us, hus, _⟩ := Option.map_eq_some_iff.mp h
    rw [faultIn]
    exact faultInAny_of_evaluateAll hus
  | .schema _ none | .never | .any | .none | .plain _ | .shape .. | .literal _ => rw [faultIn] <;> simp
termination_by (closedCount entries opened, sizeOf t)

theorem faultInAny_of_evaluateAll {opened : List String} {ts us : List StaticType}
    (h : evaluateAll entries opened ts = some us) : faultInAny failing entries opened ts = none := by
  match ts with
  | [] => rw [faultInAny]
  | t :: rest =>
    rw [evaluateAll] at h
    obtain ⟨v, hv, h⟩ := Option.bind_eq_some_iff.mp h
    obtain ⟨vs, hvs, _⟩ := Option.bind_eq_some_iff.mp h
    rw [faultInAny, faultIn_of_evaluateIn hv, faultInAny_of_evaluateAll hvs]
    simp
termination_by (closedCount entries opened, sizeOf ts)

end

variable {names : Names} {id : ShapeId} {t u : StaticType} {fields : List (String × StaticType)}

theorem known_of_not_isReference (h : t.isReference = false) :
    names.known id t = names.visible id := by
  rw [known, spaceOf?, h]
  rfl

/-- A field whose references can be replaced is looked up without a fault. -/
theorem fault?_of_evaluateIn (h : evaluateIn (names.known id t) [] t = some u) :
    names.fault? id t = none := by
  unfold fault?
  cases names.spaceOf? id t with
  | none => rfl
  | some space => exact faultIn_of_evaluateIn h

/-- What is derived uses derived names only, and these are unknown at worst. -/
theorem fault?_derived (h : t.isReference = false) (k : Nat) : names.fault? (.derived k) t = none := by
  rw [fault?, spaceOf?, h]
  rfl

theorem field_of_fault? (h : names.fault? id t = none) :
    names.field id t = .ok (names.evaluate id t) := by
  rw [field, h]

/-- Without faults, a field is found as what replacing its references gives. -/
theorem fieldOf?_of_fault? (h : ∀ field ∈ fields, names.fault? id field.2 = none) (name : String) :
    names.fieldOf? id fields name = .ok ((fields.lookup name).map (names.evaluate id)) := by
  unfold fieldOf?
  cases found : fields.lookup name with
  | none => rfl
  | some field =>
    simp only [field_of_fault? (h _ (mem_of_lookup found))]
    rfl

theorem evaluate_of_field (h : names.field id t = .ok u) : u = names.evaluate id t := by
  unfold field at h
  split at h
  · cases h
  · exact (Except.ok.inj h).symm

/-- What is looked up is a field with its references replaced. -/
theorem exists_of_mem_fieldsOf {field : String × StaticType}
    (h : field ∈ (names.fieldsOf id fields).1) :
    ∃ name t, (name, t) ∈ fields ∧ field = (name, names.evaluate id t) := by
  induction fields with
  | nil => cases h
  | cons first rest ih =>
    obtain ⟨name, t⟩ := first
    rw [fieldsOf] at h
    cases looked : names.field id t with
    | error failure =>
      rw [looked] at h
      cases h
    | ok u =>
      rw [looked] at h
      rcases List.mem_cons.mp h with rfl | h
      · exact ⟨name, t, List.mem_cons_self, by rw [evaluate_of_field looked]⟩
      · obtain ⟨name', t', hmem, rfl⟩ := ih h
        exact ⟨name', t', List.mem_cons_of_mem _ hmem, rfl⟩

/-- Without faults, all fields are looked up. -/
theorem fieldsOf_of_fault? (h : ∀ field ∈ fields, names.fault? id field.2 = none) :
    names.fieldsOf id fields
      = (fields.map fun (name, field) => (name, names.evaluate id field), none) := by
  induction fields with
  | nil => rfl
  | cons field rest ih =>
    obtain ⟨name, t⟩ := field
    rw [fieldsOf, field_of_fault? (h _ List.mem_cons_self),
      ih fun field hfield => h field (List.mem_cons_of_mem _ hfield)]
    rfl

end Names

end Schemata
