import Mathlib.Data.List.Forall2
import Schemata.Proofs.Validation.Fits
import Schemata.StaticType.Output

/-!
# Values of output types

When a value belongs to an output type. Lists, dictionaries, tuples, unions and literals mean what they
always mean. A shape stands for dictionaries with an entry for every field that is not optional and
with no other keys. A reference stands for the shape with its name.
-/

namespace Schemata

mutual

/-- A value belongs to a type. `named` tells what the names of shapes stand for. -/
inductive Inhabits (named : String → Option StaticType) : Value → StaticType → Prop
  | any {v : Value} : Inhabits named v .any
  | none : Inhabits named .none .none
  | plain {v : Value} {p : PlainType} : p.Holds v → Inhabits named v (.plain p)
  | literal {v : Value} {members : List Value} : v ∈ members → Inhabits named v (.literal members)
  | list {items : List Value} {t : StaticType} :
    (∀ v ∈ items, Inhabits named v t) → Inhabits named (.list items) (.list t)
  | dict {entries : List (Value × Value)} {key value : StaticType} :
    (∀ entry ∈ entries, Inhabits named entry.1 key) →
    (∀ entry ∈ entries, Inhabits named entry.2 value) →
    Inhabits named (.dict entries) (.dict key value)
  | tuple {items : List Value} {ts : List StaticType} :
    items.length = ts.length → (∀ pair ∈ items.zip ts, Inhabits named pair.1 pair.2) →
    Inhabits named (.tuple items) (.tuple ts)
  | union {v : Value} {t : StaticType} {members : List StaticType} :
    t ∈ members → Inhabits named v t → Inhabits named v (.union members)
  | shape {entries : List (Value × Value)} {id : ShapeId} {name : String}
      {fields : List (String × StaticType)} {optional : List String} :
    (∀ entry ∈ entries, InhabitsField named fields entry) →
    (∀ field ∈ fields.map (·.1), field ∉ optional → .str field ∈ entries.map (·.1)) →
    Inhabits named (.dict entries) (.shape id name fields optional)
  | reference {v : Value} {name : String} {t : StaticType} :
    named name = some t → Inhabits named v t → Inhabits named v (.reference name)

/-- An entry under the name of a field, with a value of its type. -/
inductive InhabitsField (named : String → Option StaticType) :
    List (String × StaticType) → Value × Value → Prop
  | intro {fields : List (String × StaticType)} {name : String} {t : StaticType} {v : Value} :
    (name, t) ∈ fields → Inhabits named v t → InhabitsField named fields (.str name, v)

end

/-- Whether a type is the shape with a name. -/
def StaticType.isShape (name : String) : StaticType → Bool
  | .shape _ n _ _ => n == name
  | _ => false

/-- The output shape with a name. -/
def OutputCache.named? (cache : OutputCache) (name : String) : Option StaticType :=
  (cache.find? fun entry => entry.2.isShape name).map (·.2)

section

variable {named : String → Option StaticType} {v : Value} {t : StaticType}

@[simp] theorem inhabits_any : Inhabits named v .any :=
  .any

@[simp] theorem not_inhabits_never : ¬ Inhabits named v .never := by
  rintro ⟨⟩

@[simp, grind =] theorem inhabits_none_iff : Inhabits named v .none ↔ v = .none := by
  constructor
  · rintro ⟨⟩
    rfl
  · rintro rfl
    exact .none

@[simp, grind =] theorem inhabits_plain_iff {p : PlainType} : Inhabits named v (.plain p) ↔ p.Holds v := by
  constructor
  · rintro ⟨⟩
    assumption
  · exact .plain

@[simp, grind =] theorem inhabits_literal_iff {members : List Value} :
    Inhabits named v (.literal members) ↔ v ∈ members := by
  constructor
  · rintro ⟨⟩
    assumption
  · exact .literal

@[simp, grind =] theorem inhabits_list_iff :
    Inhabits named v (.list t) ↔ ∃ items, v = .list items ∧ ∀ w ∈ items, Inhabits named w t := by
  constructor
  · rintro ⟨⟩
    exact ⟨_, rfl, by assumption⟩
  · rintro ⟨items, rfl, h⟩
    exact .list h

@[simp, grind =] theorem inhabits_dict_iff {key value : StaticType} :
    Inhabits named v (.dict key value) ↔ ∃ entries, v = .dict entries ∧
      (∀ e ∈ entries, Inhabits named e.1 key) ∧ ∀ e ∈ entries, Inhabits named e.2 value := by
  constructor
  · intro h
    cases h with
    | dict hkeys hvalues => exact ⟨_, rfl, hkeys, hvalues⟩
  · rintro ⟨entries, rfl, hkeys, hvalues⟩
    exact .dict hkeys hvalues

@[simp, grind =] theorem inhabits_tuple_iff {ts : List StaticType} :
    Inhabits named v (.tuple ts) ↔
      ∃ items, v = .tuple items ∧ List.Forall₂ (Inhabits named) items ts := by
  constructor
  · intro h
    cases h with
    | tuple hlength h =>
      exact ⟨_, rfl, List.forall₂_iff_zip.mpr ⟨hlength, fun hpair => h _ hpair⟩⟩
  · rintro ⟨items, rfl, h⟩
    exact .tuple h.length_eq fun pair hpair => (List.forall₂_iff_zip.mp h).2 hpair

@[simp, grind =] theorem inhabits_union_iff {members : List StaticType} :
    Inhabits named v (.union members) ↔ ∃ t ∈ members, Inhabits named v t := by
  constructor
  · intro h
    cases h with
    | union ht h => exact ⟨_, ht, h⟩
  · rintro ⟨t, ht, h⟩
    exact .union ht h

@[simp, grind =] theorem inhabits_reference_iff {name : String} :
    Inhabits named v (.reference name) ↔ ∃ t, named name = some t ∧ Inhabits named v t := by
  constructor
  · intro h
    cases h with
    | reference ht h => exact ⟨_, ht, h⟩
  · rintro ⟨t, ht, h⟩
    exact .reference ht h

end

end Schemata
