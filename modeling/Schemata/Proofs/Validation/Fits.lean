import Mathlib.Data.List.Forall2
import Schemata.Proofs.Schema.Graph
import Schemata.Schema.Absence
import Schemata.StaticType.Basic

/-!
# Values that fit a schema

The values that can come out of a schema, told from the schema alone: what a leaf gives, lists and
dictionaries of values that fit the children, objects that lack only what may be lacking. Wrappers and
lazy schemas give what they wrap, and a pipe gives what its output side gives.
-/

namespace Schemata

/-- The values of a plain type. A boolean counts as an integer. -/
inductive PlainType.Holds : PlainType → Value → Prop
  | str (s : String) : Holds .str (.str s)
  | int (n : Int) : Holds .int (.int n)
  | truth (b : Bool) : Holds .int (.bool b)
  | float (f : Float) : Holds .float (.float f)
  | bool (b : Bool) : Holds .bool (.bool b)
  | bytes (bs : List UInt8) : Holds .bytes (.bytes bs)
  | list (items : List Value) : Holds .list (.list items)
  | dict (entries : List (Value × Value)) : Holds .dict (.dict entries)

/-- The values that a leaf gives. -/
def Leaf.Gives : Leaf → Value → Prop
  | .string _, v => PlainType.str.Holds v
  | .number _, v => PlainType.float.Holds v
  | .integer _, v => PlainType.int.Holds v
  | .boolean _, v => PlainType.bool.Holds v
  | .null, v => v = .none
  | .literal value, v => v = value
  | .enum values, v => v ∈ values
  | .base, _ => True
  | .any, _ => True
  | .transform _, _ => True

/-- Wrappers that give nothing in the place of some values. -/
def Wrapper.allowsNone : Wrapper → Bool
  | optional | nullable => true
  | readonly | default _ => false

namespace Scope

variable (scope : Scope) (limit : Nat)

/-- A property with this schema may be lacking from what an object gives. -/
def MayLack (s : Schema) : Prop :=
  (scope.absence limit s).outcome = .ok (some .optional)

mutual

/-- The values that can come out of a schema. -/
inductive Fits : Schema → Value → Prop
  | leaf {id : NodeId} {l : Leaf} {v : Value} : l.Gives v → Fits (.leaf id l) v
  | object {id : NodeId} {shape : List (String × Schema)} {entries : List (Value × Value)} :
    (∀ entry ∈ entries, FitsEntry shape entry) →
    (∀ name ∈ shape.map (·.1), (∀ s, (name, s) ∈ shape → ¬ scope.MayLack limit s) →
      .str name ∈ entries.map (·.1)) →
    Fits (.object id shape) (.dict entries)
  | array {id : NodeId} {element : Schema} {items : List Value} :
    (∀ v ∈ items, Fits element v) → Fits (.array id element) (.list items)
  | record {id : NodeId} {key value : Schema} {entries : List (Value × Value)} :
    (∀ entry ∈ entries, Fits key entry.1) → (∀ entry ∈ entries, Fits value entry.2) →
    Fits (.record id key value) (.dict entries)
  | tuple {id : NodeId} {ss : List Schema} {items : List Value} :
    ss.length = items.length → (∀ pair ∈ ss.zip items, Fits pair.1 pair.2) →
    Fits (.tuple id ss) (.tuple items)
  | union {id : NodeId} {options : List Schema} {s : Schema} {v : Value} :
    s ∈ options → Fits s v → Fits (.union id options) v
  | nothing {id : NodeId} {w : Wrapper} {inner : Schema} :
    w.allowsNone = true → Fits (.wrapper id w inner) .none
  | wrapper {id : NodeId} {w : Wrapper} {inner : Schema} {v : Value} :
    Fits inner v → Fits (.wrapper id w inner) v
  | lazy {id : NodeId} {s : Schema} {v : Value} :
    scope.target id = .ok s → Fits s v → Fits (.lazy id) v
  | pipe {id : NodeId} {input output : Schema} {v : Value} :
    Fits output v → Fits (.pipe id input output) v

/-- An entry under the name of a property, with a value that fits it. -/
inductive FitsEntry : List (String × Schema) → Value × Value → Prop
  | intro {shape : List (String × Schema)} {name : String} {s : Schema} {v : Value} :
    (name, s) ∈ shape → Fits s v → FitsEntry shape (.str name, v)

end

variable {scope limit}

@[simp, grind =] theorem fits_leaf_iff {id : NodeId} {l : Leaf} {v : Value} :
    scope.Fits limit (.leaf id l) v ↔ l.Gives v := by
  constructor
  · intro h
    cases h with
    | leaf h => exact h
  · exact .leaf

@[simp, grind =] theorem fits_array_iff {id : NodeId} {element : Schema} {v : Value} :
    scope.Fits limit (.array id element) v ↔
      ∃ items, v = .list items ∧ ∀ w ∈ items, scope.Fits limit element w := by
  constructor
  · intro h
    cases h with
    | array h => exact ⟨_, rfl, h⟩
  · rintro ⟨items, rfl, h⟩
    exact .array h

@[simp, grind =] theorem fits_record_iff {id : NodeId} {key value : Schema} {v : Value} :
    scope.Fits limit (.record id key value) v ↔ ∃ entries, v = .dict entries ∧
      (∀ e ∈ entries, scope.Fits limit key e.1) ∧ ∀ e ∈ entries, scope.Fits limit value e.2 := by
  constructor
  · intro h
    cases h with
    | record hkeys hvalues => exact ⟨_, rfl, hkeys, hvalues⟩
  · rintro ⟨entries, rfl, hkeys, hvalues⟩
    exact .record hkeys hvalues

@[simp, grind =] theorem fits_tuple_iff {id : NodeId} {ss : List Schema} {v : Value} :
    scope.Fits limit (.tuple id ss) v ↔
      ∃ items, v = .tuple items ∧ List.Forall₂ (scope.Fits limit) ss items := by
  constructor
  · intro h
    cases h with
    | tuple hlength h =>
      exact ⟨_, rfl, List.forall₂_iff_zip.mpr ⟨hlength, fun hpair => h _ hpair⟩⟩
  · rintro ⟨items, rfl, h⟩
    exact .tuple h.length_eq fun pair hpair => (List.forall₂_iff_zip.mp h).2 hpair

@[simp, grind =] theorem fits_union_iff {id : NodeId} {options : List Schema} {v : Value} :
    scope.Fits limit (.union id options) v ↔ ∃ s ∈ options, scope.Fits limit s v := by
  constructor
  · intro h
    cases h with
    | union hs h => exact ⟨_, hs, h⟩
  · rintro ⟨s, hs, h⟩
    exact .union hs h

@[simp, grind =] theorem fits_wrapper_iff {id : NodeId} {w : Wrapper} {inner : Schema} {v : Value} :
    scope.Fits limit (.wrapper id w inner) v ↔
      (w.allowsNone = true ∧ v = .none) ∨ scope.Fits limit inner v := by
  constructor
  · intro h
    cases h with
    | nothing hw => exact .inl ⟨hw, rfl⟩
    | wrapper h => exact .inr h
  · rintro (⟨hw, rfl⟩ | h)
    · exact .nothing hw
    · exact .wrapper h

@[simp, grind =] theorem fits_pipe_iff {id : NodeId} {input output : Schema} {v : Value} :
    scope.Fits limit (.pipe id input output) v ↔ scope.Fits limit output v := by
  constructor
  · intro h
    cases h with
    | pipe h => exact h
  · exact .pipe

theorem fits_lazy_iff {id : NodeId} {s : Schema} (htarget : scope.target id = .ok s) {v : Value} :
    scope.Fits limit (.lazy id) v ↔ scope.Fits limit s v := by
  constructor
  · intro h
    cases h with
    | lazy htarget' h =>
      obtain rfl := Except.ok.inj (htarget.symm.trans htarget')
      exact h
  · exact .lazy htarget

/-! ## Absence -/

/-- Only optional schemas and defaults let a property be absent. -/
theorem absence_cases {budget : Nat} {s : Schema} {k : Kind}
    (h : (scope.absence budget s).outcome = .ok (some k)) : k = .optional ∨ k = .default := by
  induction budget generalizing s with
  | zero => cases h
  | succ budget ih =>
    cases s with
    | wrapper id w inner =>
      cases w with
      | optional => exact .inl (Option.some.inj (Except.ok.inj h)).symm
      | default => exact .inr (Option.some.inj (Except.ok.inj h)).symm
      | nullable => exact ih h
      | readonly => exact ih h
    | lazy id =>
      obtain ⟨t, _, h⟩ := Trail.exists_of_outcome_bind h
      exact ih h
    | pipe id input output => exact ih h
    | _ => cases h

/-- A schema that allows absence by itself because of a default is a default. -/
theorem eq_default_of_absence {budget : Nat} {s : Schema}
    (h : (scope.absence budget s).outcome = .ok (some .default))
    (hs : s.kind.allowsAbsence = true) : ∃ id value inner, s = .wrapper id (.default value) inner := by
  cases s with
  | wrapper id w inner =>
    cases w with
    | default value => exact ⟨id, value, inner, rfl⟩
    | optional =>
      cases budget <;> cases h
    | nullable => cases hs
    | readonly => cases hs
  | leaf id l => cases l <;> cases hs
  | _ => cases hs

end Scope

end Schemata
