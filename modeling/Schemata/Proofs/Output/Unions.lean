import Schemata.Proofs.Output.Equality

/-!
# Unions of output types

A union of settled types can be formed, it is settled again, and it has the values of the types
together. What is left out of it is equal to a member, so nothing is lost.
-/

namespace Schemata

namespace StaticType

variable {built : StaticType → Prop}

/-- How two lists of types without repetitions are kept apart. -/
abbrev Apart (types : List StaticType) : Prop :=
  types.Pairwise fun s t => equal s t = .ok false

/-- What dropping repetitions comes to: some of the types, no two of them equal, and one for each of
those that were dropped. -/
structure Represents (kept types : List StaticType) : Prop where
  sub {t : StaticType} : t ∈ kept → t ∈ types
  apart : Apart kept
  covers {t : StaticType} : t ∈ types → ∃ k ∈ kept, k = t ∨ Same k t

/-- One more type is dropped if it equals one that is kept. -/
theorem distinct_step {kept before : List StaticType} (h : Represents kept before) {t : StaticType}
    (settled : ∀ s ∈ t :: before, Settled built s) :
    ∃ kept', (do if ← kept.anyM (equal · t) then return kept else return kept ++ [t])
        = (Except.ok kept' : Except Failure (List StaticType)) ∧ Represents kept' (before ++ [t]) := by
  obtain ⟨ht, hbefore⟩ := List.forall_mem_cons.mp settled
  have total : ∀ k ∈ kept, ∃ b, equal k t = .ok b := fun k hk => (hbefore k (h.sub hk)).total ht
  obtain ⟨b, hb, holds⟩ := anyM_ok total
  rw [hb]
  cases b with
  | true =>
    refine ⟨kept, rfl, fun hk => List.mem_append_left _ (h.sub hk), h.apart, ?_⟩
    intro u hu
    rcases List.mem_append.mp hu with hu | hu
    · exact h.covers hu
    · obtain rfl := List.mem_singleton.mp hu
      obtain ⟨k, hk, same⟩ := holds.mp rfl
      exact ⟨k, hk, .inr same⟩
  | false =>
    refine ⟨kept ++ [t], rfl, ?_, ?_, ?_⟩
    · intro u hu
      rcases List.mem_append.mp hu with hu | hu
      · exact List.mem_append_left _ (h.sub hu)
      · exact List.mem_append_right _ hu
    · refine List.pairwise_append.mpr ⟨h.apart, List.pairwise_singleton _ _, ?_⟩
      intro k hk u hu
      obtain rfl := List.mem_singleton.mp hu
      obtain ⟨b, hb⟩ := total k hk
      cases b with
      | false => exact hb
      | true => cases holds.mpr ⟨k, hk, hb⟩
    · intro u hu
      rcases List.mem_append.mp hu with hu | hu
      · obtain ⟨k, hk, same⟩ := h.covers hu
        exact ⟨k, List.mem_append_left _ hk, same⟩
      · exact ⟨u, List.mem_append_right _ hu, .inl rfl⟩

/-- Repetitions among settled types can be dropped. -/
theorem distinct_ok {types : List StaticType} (settled : ∀ t ∈ types, Settled built t) :
    ∃ kept, distinct types = .ok kept ∧ Represents kept types := by
  have loop {rest kept before : List StaticType} (h : Represents kept before)
      (settled : ∀ t ∈ before ++ rest, Settled built t) :
      ∃ kept', rest.foldlM (fun kept t => do
          if ← kept.anyM (equal · t) then return kept else return kept ++ [t]) kept
          = (Except.ok kept' : Except Failure (List StaticType)) ∧
        Represents kept' (before ++ rest) := by
    induction rest generalizing kept before with
    | nil => exact ⟨kept, rfl, by simpa using h⟩
    | cons t rest ih =>
      have first : ∀ s ∈ t :: before, Settled built s := by
        intro s hs
        refine settled s ?_
        rcases List.mem_cons.mp hs with rfl | hs <;> simp [*]
      obtain ⟨kept', hkept, h'⟩ := distinct_step h first
      obtain ⟨kept'', hrest, h''⟩ := ih h' (by simpa using settled)
      refine ⟨kept'', ?_, by simpa using h''⟩
      rw [List.foldlM_cons, hkept]
      exact hrest
  have start : Represents [] [] :=
    ⟨fun h => absurd h List.not_mem_nil, .nil, fun h => absurd h List.not_mem_nil⟩
  exact loop start settled

theorem Settled.unionMembers {t : StaticType} (h : Settled built t) :
    ∀ m ∈ t.unionMembers, Settled built m := by
  cases h with
  | union hmembers => exact hmembers
  | _ =>
    intro m hm
    obtain rfl := List.mem_singleton.mp hm
    constructor <;> assumption

theorem inhabits_unionMembers {named : String → Option StaticType} {v : Value} {t : StaticType} :
    Inhabits named v t ↔ ∃ m ∈ t.unionMembers, Inhabits named v m := by
  cases t with
  | union members => exact inhabits_union_iff
  | _ => simp [unionMembers]

/-- A union of settled types has the values of all of them. -/
theorem unionOf_ok (identified : Identified built) {types : List StaticType}
    (settled : ∀ t ∈ types, Settled built t) :
    ∃ u, unionOf types = .ok u ∧ Settled built u ∧
      ∀ named v, Inhabits named v u ↔ ∃ t ∈ types, Inhabits named v t := by
  have members : ∀ m ∈ types.flatMap unionMembers, Settled built m := by
    intro m hm
    obtain ⟨t, ht, hm⟩ := List.mem_flatMap.mp hm
    exact (settled t ht).unionMembers m hm
  obtain ⟨kept, hkept, h⟩ := distinct_ok members
  have values (named : String → Option StaticType) (v : Value) :
      (∃ k ∈ kept, Inhabits named v k) ↔ ∃ t ∈ types, Inhabits named v t := by
    constructor
    · rintro ⟨k, hk, hv⟩
      obtain ⟨t, ht, hm⟩ := List.mem_flatMap.mp (h.sub hk)
      exact ⟨t, ht, inhabits_unionMembers.mpr ⟨k, hm, hv⟩⟩
    · rintro ⟨t, ht, hv⟩
      obtain ⟨m, hm, hv⟩ := inhabits_unionMembers.mp hv
      have hmem := List.mem_flatMap.mpr ⟨t, ht, hm⟩
      obtain ⟨k, hk, rfl | same⟩ := h.covers hmem
      · exact ⟨k, hk, hv⟩
      · have comparable := (members k (h.sub hk)).comparable identified
        exact ⟨k, hk, (comparable.inhabits (members m hmem) same named v).mpr hv⟩
  unfold unionOf
  rw [hkept]
  have several : Settled built (.union kept) := .union (fun k hk => members k (h.sub hk)) h.apart
  match kept, h, values, several with
  | [only], h, values, _ =>
    exact ⟨only, rfl, members only (h.sub List.mem_cons_self), by simpa using values⟩
  | [], _, values, several =>
    exact ⟨_, rfl, several, fun named v => inhabits_union_iff.trans (values named v)⟩
  | _ :: _ :: _, _, values, several =>
    exact ⟨_, rfl, several, fun named v => inhabits_union_iff.trans (values named v)⟩

/-- The union with the type of nothing has nothing as one more value. -/
theorem unionOf_none_ok (identified : Identified built) {t : StaticType} (h : Settled built t) :
    ∃ u, unionOf [t, .none] = .ok u ∧ Settled built u ∧
      ∀ named v, Inhabits named v u ↔ v = .none ∨ Inhabits named v t := by
  have both : ∀ s ∈ [t, .none], Settled built s := by simpa using ⟨h, .none⟩
  obtain ⟨u, hu, settled, values⟩ := unionOf_ok identified both
  refine ⟨u, hu, settled, fun named v => ?_⟩
  rw [values, or_comm]
  simp [inhabits_none_iff]

end StaticType

end Schemata
