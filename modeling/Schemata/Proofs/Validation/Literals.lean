import Schemata.Proofs.Validation.Leaves

/-!
# Expected values

Which values literals accept, and what they make of them, if the expected values are exact: they can
be looked up, and no float is among them. An exact value that is equal to another one can take its
place in any comparison, although booleans equal integers and tuples of them equal one another.
-/

namespace Schemata

namespace Value

variable {v w : Value} {vs ws : List Value}

/-! ## Exact values -/

mutual

/-- Values that can be looked up and that have no floats inside. -/
def IsExact : Value → Prop
  | none | bool _ | int _ | str _ | bytes _ | missing => True
  | tuple items => AllExact items
  | float _ | list _ | dict _ => False

def AllExact : List Value → Prop
  | [] => True
  | v :: rest => IsExact v ∧ AllExact rest

end

theorem allExact_iff : AllExact vs ↔ ∀ v ∈ vs, v.IsExact := by
  induction vs with
  | nil => simp [AllExact]
  | cons v rest ih => rw [AllExact, List.forall_mem_cons, ih]

mutual

theorem IsExact.unhashable? : ∀ {v : Value}, v.IsExact → v.unhashable? = Option.none
  | tuple items, h => by
    rw [Value.unhashable?]
    exact AllExact.unhashableIn? h
  | none, _ | bool _, _ | int _, _ | str _, _ | bytes _, _ | missing, _ => rfl

theorem AllExact.unhashableIn? : ∀ {vs : List Value}, AllExact vs → unhashableIn? vs = Option.none
  | [], _ => rfl
  | v :: rest, h => by
    rw [Value.unhashableIn?, IsExact.unhashable? h.1]
    exact AllExact.unhashableIn? h.2

end

/-! ## Comparing exact values -/

/-- Exact values are equal if they are the same, if they stand for the same integer, or if they are
tuples with equal elements. -/
theorem IsExact.equal_cases (hv : v.IsExact) (hw : w.IsExact) (h : v.equal w = true) :
    v = w ∨ (∃ n, v.asInt? = some n ∧ w.asInt? = some n) ∨
      ∃ vs ws, v = tuple vs ∧ w = tuple ws ∧ equalAll vs ws = true := by
  cases v with
  | tuple vs =>
    cases w with
    | tuple ws => exact .inr (.inr ⟨vs, ws, rfl, rfl, by simpa [equal] using h⟩)
    | _ => simp [equal] at h
  | float | list | dict => cases hv
  | _ =>
    cases w with
    | float | list | dict => cases hw
    | _ => simp_all [equal, equalAtoms, asInt?]

/-- What stands for an integer is compared like the integer. -/
theorem equal_of_asInt? {n : Int} (hv : v.asInt? = some n) (u : Value) :
    v.equal u = (int n).equal u := by
  cases v with
  | int m =>
    cases hv
    rfl
  | bool b =>
    obtain rfl := Option.some.inj hv
    cases u <;> simp [equal, equalAtoms, asInt?]
  | _ => cases hv

mutual

/-- Exact values that are equal are equal to the same values. -/
theorem IsExact.equal_congr : ∀ {v w : Value}, v.IsExact → w.IsExact → v.equal w = true →
    ∀ u, v.equal u = w.equal u
  | v, w, hv, hw, h, u => by
    rcases hv.equal_cases hw h with rfl | ⟨n, hn, hm⟩ | ⟨vs, ws, rfl, rfl, h⟩
    · rfl
    · rw [equal_of_asInt? hn, equal_of_asInt? hm]
    · cases u with
      | tuple us =>
        simp only [equal]
        exact AllExact.equalAll_congr hv hw h us
      | _ => simp [equal]

theorem AllExact.equalAll_congr : ∀ {vs ws : List Value}, AllExact vs → AllExact ws →
    equalAll vs ws = true → ∀ us, equalAll vs us = equalAll ws us
  | [], [], _, _, _, _ => rfl
  | v :: vs, w :: ws, hv, hw, h, us => by
    simp only [equalAll, Bool.and_eq_true] at h
    cases us with
    | nil => simp [equalAll]
    | cons u us =>
      simp only [equalAll]
      rw [IsExact.equal_congr hv.1 hw.1 h.1 u, AllExact.equalAll_congr hv.2 hw.2 h.2 us]
  | [], _ :: _, _, _, h, _ | _ :: _, [], _, _, h, _ => by simp [equalAll] at h

end

mutual

theorem IsExact.equal_refl : ∀ {v : Value}, v.IsExact → v.equal v = true
  | tuple items, h => by
    rw [equal]
    exact AllExact.equalAll_refl h
  | none, _ | bool _, _ | int _, _ | str _, _ | bytes _, _ | missing, _ => by
    simp [equal, equalAtoms, asInt?]

theorem AllExact.equalAll_refl : ∀ {vs : List Value}, AllExact vs → equalAll vs vs = true
  | [], _ => by simp [equalAll]
  | v :: rest, h => by
    rw [equalAll, IsExact.equal_refl h.1, AllExact.equalAll_refl h.2]
    rfl

end

/-- Same types and equal: what counts as the same member of a literal. -/
theorem equalTyped_iff : v.equalTyped w = true ↔ v.typeName = w.typeName ∧ v.equal w = true := by
  rw [equalTyped, Bool.and_eq_true, beq_iff_eq]

theorem IsExact.equalTyped_refl (hv : v.IsExact) : v.equalTyped v = true :=
  equalTyped_iff.mpr ⟨rfl, hv.equal_refl⟩

theorem IsExact.equalTyped_trans {u : Value} (hv : v.IsExact) (hw : w.IsExact)
    (h : v.equalTyped w = true) (h' : w.equalTyped u = true) : v.equalTyped u = true := by
  obtain ⟨type, same⟩ := equalTyped_iff.mp h
  obtain ⟨type', same'⟩ := equalTyped_iff.mp h'
  exact equalTyped_iff.mpr ⟨type.trans type', (hv.equal_congr hw same u).trans same'⟩

theorem IsExact.equalTyped_symm (hv : v.IsExact) (hw : w.IsExact) (h : v.equalTyped w = true) :
    w.equalTyped v = true := by
  obtain ⟨type, same⟩ := equalTyped_iff.mp h
  exact equalTyped_iff.mpr ⟨type.symm, (hv.equal_congr hw same v).symm.trans hv.equal_refl⟩

/-- For each of the values `vs` there is one of its type among `ws` that equals it. -/
def Covers (ws vs : List Value) : Prop :=
  ∀ v ∈ vs, ∃ w ∈ ws, w.equalTyped v = true

/-! ## Nesting -/

mutual

/-- How deep the tuples of a value are nested. -/
def nesting : Value → Nat
  | tuple items => nestingOfAll items + 1
  | _ => 0

def nestingOfAll : List Value → Nat
  | [] => 0
  | v :: rest => max (nesting v) (nestingOfAll rest)

end

theorem nesting_lt_of_mem (h : v ∈ vs) : v.nesting < (tuple vs).nesting := by
  have le : v.nesting ≤ nestingOfAll vs := by
    induction vs with
    | nil => cases h
    | cons w rest ih =>
      rw [nestingOfAll]
      rcases List.mem_cons.mp h with rfl | h
      · exact Nat.le_max_left _ _
      · exact Nat.le_trans (ih h) (Nat.le_max_right _ _)
  rw [nesting]
  exact Nat.lt_succ_of_le le

theorem nesting_of_asInt? {n : Int} (h : v.asInt? = some n) : v.nesting = 0 := by
  cases v <;> first | rfl | cases h

mutual

/-- Exact values that are equal are nested alike. -/
theorem IsExact.nesting_congr : ∀ {v w : Value}, v.IsExact → w.IsExact → v.equal w = true →
    v.nesting = w.nesting
  | v, w, hv, hw, h => by
    rcases hv.equal_cases hw h with rfl | ⟨n, hn, hm⟩ | ⟨vs, ws, rfl, rfl, h⟩
    · rfl
    · rw [nesting_of_asInt? hn, nesting_of_asInt? hm]
    · rw [nesting, nesting, AllExact.nesting_congr hv hw h]

theorem AllExact.nesting_congr : ∀ {vs ws : List Value}, AllExact vs → AllExact ws →
    equalAll vs ws = true → nestingOfAll vs = nestingOfAll ws
  | [], [], _, _, _ => rfl
  | v :: vs, w :: ws, hv, hw, h => by
    simp only [equalAll, Bool.and_eq_true] at h
    rw [nestingOfAll, nestingOfAll, IsExact.nesting_congr hv.1 hw.1 h.1,
      AllExact.nesting_congr hv.2 hw.2 h.2]
  | [], _ :: _, _, _, h | _ :: _, [], _, _, h => by simp [equalAll] at h

end

end Value

/-! ## Looking up values -/

namespace Leaf

variable {expected : List Value} {v w r : Value}

theorem lastEqual?_isSome {among : Value → Bool} :
    (lastEqual? among expected v).isSome = true ↔
      ∃ e ∈ expected, among e = true ∧ e.equal v = true := by
  simp only [lastEqual?, List.find?_isSome, List.mem_reverse, Bool.and_eq_true]

theorem unhashable?_of_isPlain (h : (isPlain v || v.isBool) = true) : v.unhashable? = none := by
  cases v <;> first | rfl | cases h

theorem isPrimitive_of_isPlain (h : isPlain v = true) : isPrimitive v = true := by
  cases v <;> first | rfl | cases h

/-- A value is found among exact ones if it can be looked up and equals one of them. -/
theorem literalMatch?_isSome_iff (exact : ∀ e ∈ expected, e.IsExact) :
    (literalMatch? expected v).isSome = true ↔
      v.unhashable? = none ∧ ∃ e ∈ expected, e.equal v = true := by
  simp only [literalMatch?, Option.orElse_eq_orElse, Option.orElse_eq_or, Option.isSome_or,
    Bool.or_eq_true]
  -- A value is looked up in four tables: of plain values with their types, of what can be hashed,
  -- of what cannot, and of primitives. No exact value is in the third one.
  constructor
  · rintro (h | h | h | h)
    · split at h
      next known =>
        obtain ⟨e, he, same⟩ := List.find?_isSome.mp h
        exact ⟨unhashable?_of_isPlain (Bool.or_eq_true_iff.mpr known), e, List.mem_reverse.mp he,
          (Value.equalTyped_iff.mp same).2⟩
      next => cases h
    · split at h
      next hashable =>
        obtain ⟨e, he, _, same⟩ := lastEqual?_isSome.mp h
        exact ⟨Option.isNone_iff_eq_none.mp hashable, e, he, same⟩
      next => cases h
    · obtain ⟨e, he, same⟩ := List.find?_isSome.mp h
      rw [(exact e he).unhashable?] at same
      cases same
    · split at h
      next hashable =>
        obtain ⟨e, he, _, same⟩ := lastEqual?_isSome.mp h
        exact ⟨Option.isNone_iff_eq_none.mp hashable, e, he, same⟩
      next => cases h
  · rintro ⟨hashable, e, he, same⟩
    rw [hashable]
    cases plain : isPlain e with
    | true =>
      have primitive : isPrimitive e = true := isPrimitive_of_isPlain plain
      exact .inr (.inr (.inr (lastEqual?_isSome.mpr ⟨e, he, primitive, same⟩)))
    | false =>
      refine .inr (.inl (lastEqual?_isSome.mpr ⟨e, he, ?_, same⟩))
      rw [plain, (exact e he).unhashable?]
      rfl

/-- What is neither text nor boolean nor an integer of a word has the type of the values that equal it
and are looked up by equality alone. -/
theorem typeName_eq_of_equal (hv : v.IsExact) (hw : w.IsExact) (same : v.equal w = true)
    (plain : isPlain v = false) (plain' : (isPlain w || w.isBool) = false) :
    v.typeName = w.typeName := by
  rcases hv.equal_cases hw same with rfl | ⟨n, hn, hm⟩ | ⟨_, _, rfl, rfl, _⟩
  · rfl
  · cases w with
    | int m =>
      obtain rfl := Option.some.inj hm
      cases v with
      | int => rfl
      | bool b =>
        obtain rfl := Option.some.inj hn
        cases b <;> cases plain'
      | _ => cases hn
    | bool => cases plain'
    | _ => cases hm
  · rfl

/-- An expected value is found, or another one of its type that equals it. -/
theorem exists_literalMatch?_of_mem (exact : ∀ e ∈ expected, e.IsExact) (hv : v ∈ expected) :
    ∃ r, literalMatch? expected v = some r ∧ r.equalTyped v = true := by
  have self := (exact v hv).equalTyped_refl
  simp only [literalMatch?, Option.orElse_eq_orElse, Option.orElse_eq_or]
  cases known : isPlain v || v.isBool with
  | true =>
    cases found : expected.reverse.find? (·.equalTyped v) with
    | some r =>
      exact ⟨r, rfl, List.find?_some (p := fun e : Value => e.equalTyped v) found⟩
    | none =>
      have missed := List.find?_eq_none.mp found v (List.mem_reverse.mpr hv)
      exact absurd self missed
  | false =>
    have hashable := (exact v hv).unhashable?
    rw [hashable]
    let isKey (e : Value) : Bool := !isPlain e && e.unhashable?.isNone
    have key : isKey v = true := by
      simp only [isKey, hashable, (Bool.or_eq_false_iff.mp known).1]
      rfl
    have found : (lastEqual? isKey expected v).isSome = true :=
      lastEqual?_isSome.mpr ⟨v, hv, key, (exact v hv).equal_refl⟩
    obtain ⟨r, found⟩ := Option.isSome_iff_exists.mp found
    refine ⟨r, by rw [show lastEqual? _ expected v = some r from found]; rfl, ?_⟩
    have hr : r ∈ expected := List.mem_reverse.mp (List.mem_of_find?_eq_some found)
    obtain ⟨key, same⟩ := Bool.and_eq_true_iff.mp
      (List.find?_some (p := fun e => isKey e && e.equal v) found)
    have plain : isPlain r = false :=
      (Bool.not_eq_true' (isPlain r)).mp (Bool.and_eq_true_iff.mp key).1
    exact Value.equalTyped_iff.mpr
      ⟨typeName_eq_of_equal (exact r hr) (exact v hv) same plain known, same⟩

theorem overflows_iff : overflows expected v = true ↔
    ∃ n k, v = .int n ∧ fitsWord n = false ∧ .int k ∈ expected ∧ fitsWord k = true := by
  cases v with
  | int n =>
    simp only [overflows, Bool.and_eq_true, Bool.not_eq_true', List.any_eq_true, beq_iff_eq]
    constructor
    · rintro ⟨large, e, he, type, plain⟩
      cases e with
      | int k => exact ⟨n, k, rfl, large, he, plain⟩
      | _ => simp [Value.typeName] at type
    · rintro ⟨_, k, ⟨rfl⟩, large, hk, fits⟩
      exact ⟨large, .int k, hk, rfl, fits⟩
  | _ => simp [overflows]

theorem checkLiteral_eq_ok_iff {s : Standing} : (checkLiteral expected v s).toExcept = .ok r ↔
    overflows expected v = false ∧ literalMatch? expected v = some r := by
  unfold checkLiteral
  cases large : overflows expected v with
  | true =>
    constructor
    · intro h
      cases h
    · rintro ⟨⟨⟩, _⟩
  | false =>
    cases found : literalMatch? expected v with
    | none =>
      constructor
      · intro h
        cases h
      · rintro ⟨_, ⟨⟩⟩
    | some e =>
      constructor
      · intro h
        cases h
        exact ⟨rfl, rfl⟩
      · rintro ⟨_, ⟨⟩⟩
        rfl

end Leaf

end Schemata
