import Mathlib
import Schemata.Proofs.Output.Equations
import Schemata.Proofs.Validation.Fieldwise

/-!
# Members of literal types

The type of a literal or an enum lists values, and validating with it gives values. These are the same
values, compared with their types, but for two kinds of leaves: the type of a tuple lists its elements,
and an integer beyond 64 bits is listed among smaller ones that it cannot be compared with.
-/

namespace Schemata

/-! ## Leaves with expected values -/

namespace Leaf

/-- The values that a literal or an enum expects. -/
inductive Expects : Leaf → List Value → Prop
  | literal (v : Value) : Expects (.literal v) [v]
  | enum (values : List Value) : Expects (.enum values) values

/-- A literal whose only value is a tuple. -/
def IsTupleLiteral : Leaf → Prop
  | .literal (.tuple _) => True
  | _ => False

/-- Integers beyond 64 bits together with integers within. -/
def Mixes (expected : List Value) : Prop :=
  ∃ n k, .int n ∈ expected ∧ .int k ∈ expected ∧ fitsWord n = false ∧ fitsWord k = true

variable {l : Leaf} {expected : List Value}

theorem Expects.planOfLeaf (h : l.Expects expected) :
    Scope.planOfLeaf l = pure (.literal expected) := by
  cases h <;> rfl

/-- Unless a literal stands for a tuple, all expected values are listed. -/
theorem Expects.outputType (h : l.Expects expected) (single : ¬ l.IsTupleLiteral) :
    l.outputType = .literalOf expected := by
  cases h with
  | enum => rfl
  | literal v =>
    cases v with
    | tuple => exact absurd trivial single
    | _ => rfl

end Leaf

namespace Scope

variable {scope : Scope} {limit : Nat} {id : NodeId} {l : Leaf} {expected : List Value} {v r : Value}

/-- What validation makes of a value if some values are expected. -/
theorem parse_leaf (h : l.Expects expected) :
    scope.parse limit (.leaf id l) v = (Leaf.checkLiteral expected v .initial).toExcept := by
  have compiled : (scope.compile limit (.leaf id l)).outcome
      = .ok { root := .literal expected, definitions := [] } := by
    rw [compile, planOf, h.planOfLeaf]
    rfl
  rw [parse, compiled]
  change Validator.validate _ _ = _
  rw [Validator.validate, Validator.run, Plan.check]

theorem parse_leaf_eq_ok_iff (h : l.Expects expected) :
    scope.parse limit (.leaf id l) v = .ok r ↔
      Leaf.overflows expected v = false ∧ Leaf.literalMatch? expected v = some r := by
  rw [parse_leaf h, Leaf.checkLiteral_eq_ok_iff]

/-- The members are the values that validating with a schema can give, compared with their types: each
member is accepted and given back, and every value that is given is listed. -/
structure Lists (scope : Scope) (limit : Nat) (s : Schema) (members : List Value) : Prop where
  accepted : ∀ m ∈ members, ∃ r, scope.parse limit s m = .ok r ∧ m.equalTyped r = true
  listed : ∀ v r, scope.parse limit s v = .ok r → ∃ m ∈ members, m.equalTyped r = true

variable {members : List Value}

/-- An expected value is accepted unless it is an integer that cannot be compared with the others. -/
theorem exists_parse_of_mem (h : l.Expects expected) (exact : ∀ e ∈ expected, e.IsExact)
    (hv : v ∈ expected) (fits : Leaf.overflows expected v = false) :
    ∃ r, scope.parse limit (.leaf id l) v = .ok r ∧ v.equalTyped r = true := by
  obtain ⟨r, found, same⟩ := Leaf.exists_literalMatch?_of_mem exact hv
  have hr : r ∈ expected := Leaf.mem_of_literalMatch? found
  have twin : v.equalTyped r = true := (exact r hr).equalTyped_symm (exact v hv) same
  exact ⟨r, (parse_leaf_eq_ok_iff h).mpr ⟨fits, found⟩, twin⟩

/-- Unless a literal stands for a tuple, only integers keep its type from listing what it accepts. -/
theorem lists_iff_not_mixes (h : l.Expects expected) (exact : ∀ e ∈ expected, e.IsExact)
    (sub : ∀ m ∈ members, m ∈ expected) (covers : Value.Covers members expected) :
    scope.Lists limit (.leaf id l) members ↔ ¬ Leaf.Mixes expected := by
  constructor
  · rintro lists ⟨n, k, hn, hk, large, fits⟩
    obtain ⟨m, hm, same⟩ := covers _ hn
    have typed := (exact m (sub m hm)).equalTyped_symm (exact _ hn) same
    obtain rfl : .int n = m := (Value.IsAtom.equalTyped_iff (v := .int n) trivial).mp typed
    obtain ⟨r, parsed, _⟩ := lists.accepted _ hm
    have overflows : Leaf.overflows expected (.int n) = true :=
      Leaf.overflows_iff.mpr ⟨n, k, rfl, large, hk, fits⟩
    rw [((parse_leaf_eq_ok_iff h).mp parsed).1] at overflows
    cases overflows
  · intro apart
    refine ⟨fun m hm => exists_parse_of_mem h exact (sub m hm) ?_, fun v r parsed => ?_⟩
    · by_contra overflows
      obtain ⟨n, k, rfl, large, hk, fits⟩ := Leaf.overflows_iff.mp (eq_true_of_ne_false overflows)
      exact apart ⟨n, k, sub _ hm, hk, large, fits⟩
    · exact covers r (Leaf.mem_of_literalMatch? ((parse_leaf_eq_ok_iff h).mp parsed).2)

/-- The elements of a tuple do not list the tuple, which is nested more deeply than each of them. -/
theorem not_lists_elements {items : List Value} (exact : (Value.tuple items).IsExact)
    (sub : ∀ m ∈ members, m ∈ items) :
    ¬ scope.Lists limit (.leaf id (.literal (.tuple items))) members := by
  intro lists
  have each : ∀ e ∈ [Value.tuple items], e.IsExact := fun e he => List.mem_singleton.mp he ▸ exact
  obtain ⟨r, parsed, _⟩ : ∃ r, scope.parse limit (.leaf id (.literal (.tuple items))) (.tuple items)
      = .ok r ∧ _ := exists_parse_of_mem (.literal _) each (List.mem_singleton.mpr rfl) rfl
  obtain ⟨m, hm, same⟩ := lists.listed _ r parsed
  have hr := Leaf.mem_of_literalMatch? ((parse_leaf_eq_ok_iff (.literal _)).mp parsed).2
  obtain rfl := List.mem_singleton.mp hr
  have exactMember : m.IsExact := Value.allExact_iff.mp exact m (sub m hm)
  have alike := exactMember.nesting_congr exact (Value.equalTyped_iff.mp same).2
  exact absurd alike (Nat.ne_of_lt (Value.nesting_lt_of_mem (sub m hm)))

/-! ## The same members -/

/-- What is accepted if some values are expected is also accepted if values are expected that cover
them and that they cover. -/
theorem exists_parse_of_covers {id' : NodeId} {l' : Leaf} {expected' : List Value}
    (h : l.Expects expected) (h' : l'.Expects expected') (exact : ∀ e ∈ expected, e.IsExact)
    (exact' : ∀ e ∈ expected', e.IsExact) (covers : Value.Covers expected' expected)
    (covers' : Value.Covers expected expected')
    (parsed : ∃ r, scope.parse limit (.leaf id l) v = .ok r) :
    ∃ r, scope.parse limit (.leaf id' l') v = .ok r := by
  obtain ⟨r, parsed⟩ := parsed
  obtain ⟨fits, found⟩ := (parse_leaf_eq_ok_iff h).mp parsed
  obtain ⟨hashable, e, he, same⟩ :=
    (Leaf.literalMatch?_isSome_iff exact).mp (Option.isSome_iff_exists.mpr ⟨r, found⟩)
  have fits' : Leaf.overflows expected' v = false := by
    by_contra overflows
    obtain ⟨n, k, rfl, large, hk, small⟩ := Leaf.overflows_iff.mp (eq_true_of_ne_false overflows)
    obtain ⟨m, hm, typed⟩ := covers' _ hk
    have typed := (exact m hm).equalTyped_symm (exact' _ hk) typed
    obtain rfl : .int k = m := (Value.IsAtom.equalTyped_iff (v := .int k) trivial).mp typed
    rw [Leaf.overflows_iff.mpr ⟨n, k, rfl, large, hm, small⟩] at fits
    cases fits
  obtain ⟨e', he', typed⟩ := covers e he
  have same' : e'.equal v = true :=
    ((exact' e' he').equal_congr (exact e he) (Value.equalTyped_iff.mp typed).2 v).trans same
  obtain ⟨r', found'⟩ := Option.isSome_iff_exists.mp
    ((Leaf.literalMatch?_isSome_iff exact').mpr ⟨hashable, e', he', same'⟩)
  exact ⟨r', (parse_leaf_eq_ok_iff h').mpr ⟨fits', found'⟩⟩

end Scope

namespace StaticType

variable {vs ws values values' : List Value}

theorem sameMembers_of_equal (h : equal (.literal vs) (.literal ws) = .ok true) :
    sameMembers vs ws = true := by
  rw [equal] at h
  cases first : requireHashable vs with
  | error failure =>
    rw [first] at h
    cases h
  | ok =>
    cases second : requireHashable ws with
    | error failure =>
      rw [first, second] at h
      cases h
    | ok =>
      rw [first, second] at h
      exact Except.ok.inj h

theorem covers_of_members (exact : ∀ v ∈ values, v.IsExact) (exact' : ∀ v ∈ values', v.IsExact)
    (sub : ∀ m ∈ vs, m ∈ values) (covers : Value.Covers vs values) (sub' : ∀ m ∈ ws, m ∈ values')
    (twins : vs.all (fun v => ws.any (v.equalTyped ·)) = true) : Value.Covers values' values := by
  intro v hv
  obtain ⟨m, hm, typed⟩ := covers v hv
  obtain ⟨m', hm', twin⟩ := List.any_eq_true.mp (List.all_eq_true.mp twins m hm)
  have exactMember := exact m (sub m hm)
  have exactTwin := exact' m' (sub' m' hm')
  exact ⟨m', sub' m' hm',
    exactTwin.equalTyped_trans exactMember (exactMember.equalTyped_symm exactTwin twin) typed⟩

/-- Values of the same literal type cover one another. -/
theorem covers_of_equal (exact : ∀ v ∈ values, v.IsExact) (exact' : ∀ v ∈ values', v.IsExact)
    (h : equal (.literalOf values) (.literalOf values') = .ok true) :
    Value.Covers values' values ∧ Value.Covers values values' := by
  obtain ⟨members, same, sub, covers⟩ := literalOf_exact exact
  obtain ⟨members', same', sub', covers'⟩ := literalOf_exact exact'
  rw [same, same'] at h
  obtain ⟨forth, back⟩ := Bool.and_eq_true_iff.mp (sameMembers_of_equal h)
  exact ⟨covers_of_members exact exact' sub covers sub' forth,
    covers_of_members exact' exact sub' covers' sub back⟩

end StaticType

namespace Scope

variable {l : Leaf} {expected : List Value}

/-- The type of a literal or an enum of exact values lists just the values that validation gives,
unless the only value is a tuple, or there are integers beyond 64 bits and integers within. Two of them
with equal types accept the same values, unless one of them stands for a tuple. -/
theorem literal_members_listed_iff (h : l.Expects expected) (exact : ∀ e ∈ expected, e.IsExact)
    (scope : Scope) (limit : Nat) (id : NodeId) :
    (∀ registry, (scope.staticType (.leaf id l)).exec registry = (.ok l.staticType, registry)) ∧
    (∀ (names : Names) cache,
      (names.outputOf limit l.staticType).exec cache = (.ok l.outputType, cache)) ∧
    (∃ members, l.outputType = .literal members ∧
      (scope.Lists limit (.leaf id l) members ↔ ¬ l.IsTupleLiteral ∧ ¬ Leaf.Mixes expected)) ∧
    ∀ id' l' expected', l'.Expects expected' → (∀ e ∈ expected', e.IsExact) →
      ¬ l.IsTupleLiteral → ¬ l'.IsTupleLiteral → l.outputType.equal l'.outputType = .ok true →
      ∀ v, (∃ r, scope.parse limit (.leaf id l) v = .ok r) ↔
        ∃ r, scope.parse limit (.leaf id' l') v = .ok r := by
  refine ⟨fun registry => ?_, fun names cache => ?_, ?_, ?_⟩
  · rw [staticType, typeOf_leaf]
    rfl
  · rw [Names.outputOf, names.outputIn_leaf]
    rfl
  · by_cases tuple : l.IsTupleLiteral
    · cases h with
      | enum => cases tuple
      | literal w =>
        cases w with
        | tuple items =>
          have exactTuple := exact _ (List.mem_singleton.mpr rfl)
          obtain ⟨members, same, sub, _⟩ :=
            StaticType.literalOf_exact (Value.allExact_iff.mp exactTuple)
          exact ⟨members, same, fun lists => absurd lists (not_lists_elements exactTuple sub),
            fun apart => absurd tuple apart.1⟩
        | _ => cases tuple
    · -- other leaves list their values as they are, so it only matters whether all are accepted
      obtain ⟨members, same, sub, covers⟩ := StaticType.literalOf_exact exact
      refine ⟨members, (h.outputType tuple).trans same, ?_⟩
      rw [lists_iff_not_mixes h exact sub covers]
      exact (and_iff_right tuple).symm
  · intro id' l' expected' h' exact' single single' same v
    rw [h.outputType single, h'.outputType single'] at same
    obtain ⟨covers, covers'⟩ := StaticType.covers_of_equal exact exact' same
    exact ⟨exists_parse_of_covers h h' exact exact' covers covers',
      exists_parse_of_covers h' h exact' exact covers' covers⟩

/-- The number one, the truth, and the pair of a number with itself, twice. -/
def twins : Leaf :=
  .enum [.int 1, .bool true, .tuple [.int 1, .int 1], .tuple [.bool true, .int 1]]

theorem twins_members_listed :
    twins.outputType = .literal [.int 1, .bool true, .tuple [.int 1, .int 1]] ∧
      withNothing.Lists 64 (.leaf 0 twins) [.int 1, .bool true, .tuple [.int 1, .int 1]] := by
  have exact : ∀ e ∈ [.int 1, .bool true, .tuple [.int 1, .int 1], .tuple [.bool true, .int 1]],
      Value.IsExact e := by
    simp [Value.IsExact, Value.AllExact]
  have type : twins.outputType = .literal [.int 1, .bool true, .tuple [.int 1, .int 1]] := by cbv
  obtain ⟨members, same, lists⟩ :=
    (literal_members_listed_iff (.enum _) exact withNothing 64 0).2.2.1
  obtain rfl := StaticType.literal.inj (type.symm.trans same)
  refine ⟨type, lists.mpr ⟨fun tuple => tuple, ?_⟩⟩
  rintro ⟨n, k, hn, _, large, _⟩
  simp only [List.mem_cons, Value.int.injEq, reduceCtorEq, List.not_mem_nil, or_false] at hn
  subst hn
  cases large

/-- The type of a pair lists its elements, neither of which is accepted, and an integer beyond 64 bits
is listed and yet refused. -/
theorem pair_and_large_integer_not_listed :
    let pair : Leaf := .literal (.tuple [.int 1, .int 2])
    let large : Leaf := .enum [.int 1, .int (2 ^ 70)]
    (pair.outputType = .literal [.int 1, .int 2] ∧
      ¬ withNothing.Lists 64 (.leaf 0 pair) [.int 1, .int 2]) ∧
    large.outputType = .literal [.int 1, .int (2 ^ 70)] ∧
      ¬ withNothing.Lists 64 (.leaf 0 large) [.int 1, .int (2 ^ 70)] := by
  refine ⟨⟨by cbv, fun lists => ?_⟩, by cbv, fun lists => ?_⟩
  · obtain ⟨r, parsed, _⟩ := lists.accepted (.int 1) List.mem_cons_self
    have refused : Leaf.literalMatch? [.tuple [.int 1, .int 2]] (.int 1) = none := by cbv
    rw [((parse_leaf_eq_ok_iff (.literal _)).mp parsed).2] at refused
    cases refused
  · obtain ⟨r, parsed, _⟩ := lists.accepted (.int (2 ^ 70)) (by simp)
    have overflows : Leaf.overflows [.int 1, .int (2 ^ 70)] (.int (2 ^ 70)) = true := by cbv
    rw [((parse_leaf_eq_ok_iff (.enum _)).mp parsed).1] at overflows
    cases overflows

end Scope

end Schemata
