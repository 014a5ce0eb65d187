import Schemata.Proofs.Output.Inhabits
import Schemata.Proofs.Validation.Literals

/-!
# Equal output types

Types of values that are equal have the same values. Unions are compared as sets by counting, which is
right because no two members of a union are equal. Literals are compared by their members, which has to
be possible: they are atoms.
-/

namespace Schemata

/-- The values that literals are made of. -/
def Value.IsAtom : Value → Prop
  | none | bool _ | int _ | str _ | bytes _ => True
  | float _ | list _ | tuple _ | dict _ | missing => False

namespace Value

variable {v w : Value} {vs ws : List Value}

theorem IsAtom.isExact (h : v.IsAtom) : v.IsExact := by
  cases v <;> trivial

theorem unhashableIn?_of_atoms (h : ∀ v ∈ vs, v.IsAtom) : unhashableIn? vs = Option.none :=
  (allExact_iff.mpr fun v hv => (h v hv).isExact).unhashableIn?

/-- Atoms of the same type that are equal are the same. -/
theorem IsAtom.equalTyped_iff (h : v.IsAtom) : v.equalTyped w = true ↔ v = w := by
  cases v with
  | none => cases w <;> simp [equalTyped, typeName, equal, equalAtoms]
  | bool b =>
    cases w <;> simp [equalTyped, typeName, equal, equalAtoms, asInt?]
    case bool c => cases b <;> cases c <;> decide
  | int n => cases w <;> simp [equalTyped, typeName, equal, equalAtoms, asInt?]
  | str s => cases w <;> simp [equalTyped, typeName, equal, equalAtoms]
  | bytes bs => cases w <;> simp [equalTyped, typeName, equal, equalAtoms]
  | _ => cases h

end Value

namespace StaticType

theorem requireHashable_of_atoms {members : List Value} (h : ∀ v ∈ members, v.IsAtom) :
    requireHashable members = .ok () := by
  rw [requireHashable, Value.unhashableIn?_of_atoms h]

theorem sameMembers_iff {vs ws : List Value} (hvs : ∀ v ∈ vs, v.IsAtom) (hws : ∀ w ∈ ws, w.IsAtom) :
    sameMembers vs ws = true ↔ ∀ v, v ∈ vs ↔ v ∈ ws := by
  unfold sameMembers
  simp only [Bool.and_eq_true, List.all_eq_true, List.any_eq_true]
  constructor
  · rintro ⟨forth, back⟩ v
    constructor
    · intro hv
      obtain ⟨w, hw, heq⟩ := forth v hv
      exact ((hvs v hv).equalTyped_iff.mp heq) ▸ hw
    · intro hv
      obtain ⟨w, hw, heq⟩ := back v hv
      exact ((hws v hv).equalTyped_iff.mp heq) ▸ hw
  · intro h
    exact ⟨fun v hv => ⟨v, (h v).mp hv, (hvs v hv).equalTyped_iff.mpr rfl⟩,
      fun w hw => ⟨w, (h w).mpr hw, (hws w hw).equalTyped_iff.mpr rfl⟩⟩

/-- What unions of output types are made of: types without schemas, with atoms for the members of
literals, with shapes that were `built`, and with no two equal members in a union. -/
inductive Settled (built : StaticType → Prop) : StaticType → Prop
  | never : Settled built .never
  | any : Settled built .any
  | none : Settled built .none
  | plain (p : PlainType) : Settled built (.plain p)
  | reference (name : String) : Settled built (.reference name)
  | shape {id : ShapeId} {name : String} {fields : List (String × StaticType)}
      {optional : List String} :
    built (.shape id name fields optional) → Settled built (.shape id name fields optional)
  | literal {members : List Value} : (∀ v ∈ members, v.IsAtom) → Settled built (.literal members)
  | list {t : StaticType} : Settled built t → Settled built (.list t)
  | dict {key value : StaticType} :
    Settled built key → Settled built value → Settled built (.dict key value)
  | tuple {ts : List StaticType} : (∀ t ∈ ts, Settled built t) → Settled built (.tuple ts)
  | union {members : List StaticType} :
    (∀ t ∈ members, Settled built t) → members.Pairwise (fun s t => equal s t = .ok false) →
    Settled built (.union members)

/-- Built shapes are known by their identities. -/
def Identified (built : StaticType → Prop) : Prop :=
  ∀ id n₁ f₁ o₁ n₂ f₂ o₂, built (.shape id n₁ f₁ o₁) → built (.shape id n₂ f₂ o₂) →
    n₁ = n₂ ∧ f₁ = f₂ ∧ o₁ = o₂

/-! ## Comparing parts -/

/-- Two types are found equal. -/
abbrev Same (s t : StaticType) : Prop :=
  equal s t = .ok true

section

variable {α ε : Type} {f : α → Except ε Bool}

theorem anyM_ok {l : List α} (h : ∀ a ∈ l, ∃ b, f a = .ok b) :
    ∃ b, l.anyM f = .ok b ∧ (b = true ↔ ∃ a ∈ l, f a = .ok true) := by
  induction l with
  | nil => exact ⟨false, rfl, by simp⟩
  | cons a rest ih =>
    obtain ⟨⟨b, hb⟩, hrest⟩ := List.forall_mem_cons.mp h
    obtain ⟨b', hb', iff⟩ := ih hrest
    cases b with
    | true => exact ⟨true, by rw [List.anyM, hb]; rfl, by simp [hb]⟩
    | false =>
      refine ⟨b', by rw [List.anyM, hb]; exact hb', ?_⟩
      rw [iff]
      simp [hb]

end

theorem allIn_ok {ss ts : List StaticType} (h : ∀ s ∈ ss, ∀ t ∈ ts, ∃ b, equal s t = .ok b) :
    ∃ b, allIn ss ts = .ok b ∧ (b = true ↔ ∀ s ∈ ss, ∃ t ∈ ts, Same s t) := by
  induction ss with
  | nil => exact ⟨true, by rw [allIn], by simp⟩
  | cons s rest ih =>
    obtain ⟨hs, hrest⟩ := List.forall_mem_cons.mp h
    obtain ⟨b, hb, iff⟩ := anyM_ok hs
    obtain ⟨b', hb', iff'⟩ := ih hrest
    rw [allIn, hb]
    cases b with
    | true =>
      refine ⟨b', hb', ?_⟩
      rw [iff', List.forall_mem_cons]
      exact (and_iff_right (iff.mp rfl)).symm
    | false =>
      refine ⟨false, rfl, ?_⟩
      rw [List.forall_mem_cons]
      constructor
      · rintro ⟨⟩
      · rintro ⟨found, _⟩
        exact iff.mpr found

theorem equalAll_total {ss ts : List StaticType}
    (h : ∀ s ∈ ss, ∀ t ∈ ts, ∃ b, equal s t = .ok b) : ∃ b, equalAll ss ts = .ok b := by
  induction ss generalizing ts with
  | nil => cases ts <;> exact ⟨_, by rw [equalAll] <;> simp⟩
  | cons s rest ih =>
    cases ts with
    | nil => exact ⟨false, by rw [equalAll] <;> simp⟩
    | cons t ts =>
      obtain ⟨b, hb⟩ := h s List.mem_cons_self t List.mem_cons_self
      obtain ⟨b', hb'⟩ := ih fun s hs t ht =>
        h s (List.mem_cons_of_mem _ hs) t (List.mem_cons_of_mem _ ht)
      rw [equalAll, hb]
      cases b with
      | true => exact ⟨b', hb'⟩
      | false => exact ⟨false, rfl⟩

theorem equalAll_eq_true_iff {ss ts : List StaticType} :
    equalAll ss ts = .ok true ↔ List.Forall₂ Same ss ts := by
  induction ss generalizing ts with
  | nil => cases ts <;> simp [equalAll]
  | cons s rest ih =>
    cases ts with
    | nil => simp [equalAll]
    | cons t ts =>
      rw [equalAll, List.forall₂_cons, ← ih, Same]
      rcases equal s t with failure | _ | _
      · exact ⟨by rintro ⟨⟩, by rintro ⟨⟨⟩, _⟩⟩
      · exact ⟨by rintro ⟨⟩, by rintro ⟨⟨⟩, _⟩⟩
      · exact (and_iff_right rfl).symm

/-- Things that are matched with as many others, no two of them with the same one, leave none of the
others unmatched. -/
theorem exists_match_of_length_eq {α β : Type} {R : α → β → Prop} {xs : List α} {ys : List β}
    (hlength : xs.length = ys.length) (matched : ∀ x ∈ xs, ∃ y ∈ ys, R x y)
    (apart : xs.Pairwise fun x x' => ∀ y ∈ ys, R x y → ¬ R x' y) : ∀ y ∈ ys, ∃ x ∈ xs, R x y := by
  induction xs generalizing ys with
  | nil =>
    obtain rfl := List.eq_nil_of_length_eq_zero hlength.symm
    exact fun _ h => absurd h List.not_mem_nil
  | cons x rest ih =>
    obtain ⟨⟨y₀, hy₀, hx⟩, hrest⟩ := List.forall_mem_cons.mp matched
    obtain ⟨hfirst, hothers⟩ := List.pairwise_cons.mp apart
    obtain ⟨before, after, rfl⟩ := List.append_of_mem hy₀
    have within {y : β} (hy : y ∈ before ++ after) : y ∈ before ++ y₀ :: after := by
      rcases List.mem_append.mp hy with hy | hy
      · exact List.mem_append_left _ hy
      · exact List.mem_append_right _ (List.mem_cons_of_mem _ hy)
    have others : ∀ y ∈ before ++ after, ∃ x ∈ rest, R x y := by
      refine ih ?_ ?_ ?_
      · simp only [List.length_cons, List.length_append] at hlength ⊢
        omega
      · intro x' hx'
        obtain ⟨y, hy, hxy⟩ := hrest x' hx'
        rcases List.mem_append.mp hy with hy | hy
        · exact ⟨y, List.mem_append_left _ hy, hxy⟩
        · rcases List.mem_cons.mp hy with rfl | hy
          · exact absurd hxy (hfirst x' hx' _ hy₀ hx)
          · exact ⟨y, List.mem_append_right _ hy, hxy⟩
      · exact hothers.imp fun h y hy => h y (within hy)
    intro y hy
    rcases List.mem_append.mp hy with hy | hy
    · obtain ⟨x', hx', h⟩ := others y (List.mem_append_left _ hy)
      exact ⟨x', List.mem_cons_of_mem _ hx', h⟩
    · rcases List.mem_cons.mp hy with rfl | hy
      · exact ⟨x, List.mem_cons_self, hx⟩
      · obtain ⟨x', hx', h⟩ := others y (List.mem_append_right _ hy)
        exact ⟨x', List.mem_cons_of_mem _ hx', h⟩

/-! ## Comparing types -/

/-- Types that are built in different ways are not equal. -/
theorem equal_of_ctorIdx_ne {s t : StaticType} (h : s.ctorIdx ≠ t.ctorIdx) :
    equal s t = .ok false := by
  rw [equal.eq_def]
  split <;> first | exact absurd rfl h | rfl

theorem Same.ctorIdx {s t : StaticType} (h : Same s t) : s.ctorIdx = t.ctorIdx := by
  by_contra hne
  rw [Same, equal_of_ctorIdx_ne hne] at h
  cases h

theorem exists_equal_of_ctorIdx {s t : StaticType}
    (h : s.ctorIdx = t.ctorIdx → ∃ b, equal s t = .ok b) : ∃ b, equal s t = .ok b := by
  by_cases hidx : s.ctorIdx = t.ctorIdx
  · exact h hidx
  · exact ⟨false, equal_of_ctorIdx_ne hidx⟩

section

variable {built : StaticType → Prop} {named : String → Option StaticType}

/-! ### Literals -/

theorem Settled.exists_literal {vs : List Value} {t : StaticType} (h : Settled built t)
    (hidx : (StaticType.literal vs).ctorIdx = t.ctorIdx) :
    ∃ ws, t = .literal ws ∧ ∀ w ∈ ws, w.IsAtom := by
  cases h <;> first | exact ⟨_, rfl, by assumption⟩ | cases hidx

theorem equal_literals {vs ws : List Value} (hvs : ∀ v ∈ vs, v.IsAtom) (hws : ∀ w ∈ ws, w.IsAtom) :
    equal (.literal vs) (.literal ws) = .ok (sameMembers vs ws) := by
  rw [equal, requireHashable_of_atoms hvs, requireHashable_of_atoms hws]
  rfl

theorem same_literals_iff {vs ws : List Value} (hvs : ∀ v ∈ vs, v.IsAtom)
    (hws : ∀ w ∈ ws, w.IsAtom) :
    Same (.literal vs) (.literal ws) ↔ ∀ v, v ∈ vs ↔ v ∈ ws := by
  rw [Same, equal_literals hvs hws, Except.ok.injEq, sameMembers_iff hvs hws]

/-! ### Lists, dictionaries and tuples -/

/-- Types that are compared part by part. -/
def isProduct : StaticType → Bool
  | list _ | dict _ _ | tuple _ => true
  | _ => false

theorem isProduct_of_ctorIdx {s t : StaticType} (hs : s.isProduct = true)
    (hidx : s.ctorIdx = t.ctorIdx) : t.isProduct = true := by
  cases s <;> cases hs <;> cases t <;> first | rfl | cases hidx

theorem equal_products {s t : StaticType} (hs : s.isProduct = true)
    (hidx : s.ctorIdx = t.ctorIdx) : equal s t = equalAll s.args t.args := by
  have last (x : Except Failure Bool) : (do if ← x then return true else return false) = x := by
    rcases x with failure | _ | _ <;> rfl
  cases s <;> cases hs <;> cases t <;> cases hidx
  · simp only [equal, equalAll, args]
    exact (last _).symm
  · simp only [equal, equalAll, args]
    congr 1
    funext b
    cases b with
    | false => rfl
    | true => exact (last _).symm
  · rw [equal]
    rfl

theorem same_products_iff {s t : StaticType} (hs : s.isProduct = true)
    (hidx : s.ctorIdx = t.ctorIdx) :
    Same s t ↔ s.args.length = t.args.length ∧
      ∀ i h h', Same (s.args.get ⟨i, h⟩) (t.args.get ⟨i, h'⟩) := by
  rw [Same, equal_products hs hidx, equalAll_eq_true_iff, List.forall₂_iff_get]

theorem Settled.parts {t : StaticType} (h : Settled built t) (ht : t.isProduct = true) :
    ∀ p ∈ t.args, Settled built p := by
  cases h with
  | list h => simpa [args] using h
  | dict hk hv => simpa [args] using ⟨hk, hv⟩
  | tuple h => exact h
  | _ => cases ht

theorem inhabits_products {s t : StaticType} (hs : s.isProduct = true)
    (hidx : s.ctorIdx = t.ctorIdx)
    (h : List.Forall₂ (fun p q => ∀ v, Inhabits named v p ↔ Inhabits named v q) s.args t.args)
    (v : Value) : Inhabits named v s ↔ Inhabits named v t := by
  have parts {items : List Value} {ps qs : List StaticType}
      (h : List.Forall₂ (fun p q => ∀ v, Inhabits named v p ↔ Inhabits named v q) ps qs) :
      List.Forall₂ (Inhabits named) items ps ↔ List.Forall₂ (Inhabits named) items qs := by
    induction h generalizing items with
    | nil => rfl
    | cons hpq _ ih =>
      cases items with
      | nil => simp
      | cons v items => rw [List.forall₂_cons, List.forall₂_cons, hpq, ih]
  cases s <;> cases hs <;> cases t <;> cases hidx
  · simp only [args, List.forall₂_cons, List.Forall₂.nil, and_true] at h
    simp only [inhabits_list_iff, h]
  · simp only [args, List.forall₂_cons, List.Forall₂.nil, and_true] at h
    simp only [inhabits_dict_iff, h.1, h.2]
  · simp only [args] at h
    simp only [inhabits_tuple_iff, parts h]

/-! ### Unions -/

theorem Settled.exists_union {ss : List StaticType} {t : StaticType} (h : Settled built t)
    (hidx : (StaticType.union ss).ctorIdx = t.ctorIdx) :
    ∃ ts, t = .union ts ∧ (∀ t ∈ ts, Settled built t) ∧
      ts.Pairwise fun s t => equal s t = .ok false := by
  cases h <;> first | exact ⟨_, rfl, by assumption, by assumption⟩ | cases hidx

/-! ### All types -/

theorem exists_equal_product {s t : StaticType} (hs : s.isProduct = true) (ht : Settled built t)
    (h : ∀ p ∈ s.args, ∀ q, Settled built q → ∃ b, equal p q = .ok b) :
    ∃ b, equal s t = .ok b := by
  refine exists_equal_of_ctorIdx fun hidx => ?_
  rw [equal_products hs hidx]
  have parts := ht.parts (isProduct_of_ctorIdx hs hidx)
  exact equalAll_total fun p hp q hq => h p hp q (parts q hq)

/-- Settled types can be compared with one another. -/
theorem Settled.total {s t : StaticType} (hs : Settled built s) (ht : Settled built t) :
    ∃ b, equal s t = .ok b := by
  induction hs generalizing t with
  | never | any | none | plain | reference | shape =>
    refine exists_equal_of_ctorIdx fun hidx => ?_
    cases t <;> cases hidx
    exact ⟨_, by rw [equal]⟩
  | literal hvs =>
    refine exists_equal_of_ctorIdx fun hidx => ?_
    obtain ⟨ws, rfl, hws⟩ := ht.exists_literal hidx
    exact ⟨_, equal_literals hvs hws⟩
  | list _ ih =>
    refine exists_equal_product rfl ht fun p hp q hq => ?_
    obtain rfl := List.mem_singleton.mp hp
    exact ih hq
  | dict _ _ ihkey ihvalue =>
    refine exists_equal_product rfl ht fun p hp q hq => ?_
    rcases List.mem_cons.mp hp with rfl | hp
    · exact ihkey hq
    · obtain rfl := List.mem_singleton.mp hp
      exact ihvalue hq
  | tuple _ ih => exact exists_equal_product rfl ht fun p hp q hq => ih p hp hq
  | union _ _ ih =>
    refine exists_equal_of_ctorIdx fun hidx => ?_
    obtain ⟨ts, rfl, hts, _⟩ := ht.exists_union hidx
    rw [equal]
    split
    · obtain ⟨b, hb, _⟩ := allIn_ok fun s hs t ht => ih s hs (hts t ht)
      exact ⟨b, hb⟩
    · exact ⟨false, rfl⟩

theorem same_unions_iff {ss ts : List StaticType} (hss : ∀ s ∈ ss, Settled built s)
    (hts : ∀ t ∈ ts, Settled built t) :
    Same (.union ss) (.union ts) ↔ ss.length = ts.length ∧ ∀ s ∈ ss, ∃ t ∈ ts, Same s t := by
  obtain ⟨b, hb, holds⟩ := allIn_ok fun s hs t ht => (hss s hs).total (hts t ht)
  rw [Same, equal]
  split
  next hlength => rw [hb, Except.ok.injEq, holds, and_iff_right hlength]
  next hlength => exact ⟨by rintro ⟨⟩, fun h => absurd h.1 hlength⟩

/-- What it means that a type is found equal to settled types. -/
structure Comparable (built : StaticType → Prop) (s : StaticType) : Prop where
  symm {t : StaticType} : Settled built t → Same s t → Same t s
  trans {t u : StaticType} : Settled built t → Settled built u → Same s t → Same t u → Same s u
  inhabits {t : StaticType} : Settled built t → Same s t →
    ∀ named v, Inhabits named v s ↔ Inhabits named v t

namespace Comparable

/-- A type that equals itself alone. -/
theorem of_eq {s : StaticType} (only : ∀ t, Settled built t → Same s t → t = s) :
    Comparable built s where
  symm ht same := by
    obtain rfl := only _ ht same
    exact same
  trans ht _ same same' := by
    obtain rfl := only _ ht same
    exact same'
  inhabits ht same named v := by rw [only _ ht same]

theorem literal {members : List Value} (h : ∀ v ∈ members, v.IsAtom) :
    Comparable built (.literal members) where
  symm ht same := by
    obtain ⟨ws, rfl, hws⟩ := ht.exists_literal same.ctorIdx
    rw [same_literals_iff h hws] at same
    exact (same_literals_iff hws h).mpr fun v => (same v).symm
  trans ht hu same same' := by
    obtain ⟨ws, rfl, hws⟩ := ht.exists_literal same.ctorIdx
    obtain ⟨us, rfl, hus⟩ := hu.exists_literal same'.ctorIdx
    rw [same_literals_iff h hws] at same
    rw [same_literals_iff hws hus] at same'
    exact (same_literals_iff h hus).mpr fun v => (same v).trans (same' v)
  inhabits ht same named v := by
    obtain ⟨ws, rfl, hws⟩ := ht.exists_literal same.ctorIdx
    rw [same_literals_iff h hws] at same
    rw [inhabits_literal_iff, inhabits_literal_iff]
    exact same v

theorem product {s : StaticType} (hs : s.isProduct = true)
    (h : ∀ p ∈ s.args, Comparable built p) : Comparable built s where
  symm {t} ht same := by
    have ht' := isProduct_of_ctorIdx hs same.ctorIdx
    have parts := ht.parts ht'
    rw [same_products_iff ht' same.ctorIdx.symm]
    obtain ⟨hlength, same⟩ := (same_products_iff hs same.ctorIdx).mp same
    exact ⟨hlength.symm, fun i hi hi' =>
      (h _ (List.get_mem _ _)).symm (parts _ (List.get_mem _ _)) (same i hi' hi)⟩
  trans {t u} ht hu same same' := by
    have ht' := isProduct_of_ctorIdx hs same.ctorIdx
    have hidx := same.ctorIdx.trans same'.ctorIdx
    have tparts := ht.parts ht'
    have uparts := hu.parts (isProduct_of_ctorIdx hs hidx)
    rw [same_products_iff hs hidx]
    obtain ⟨hlength, same⟩ := (same_products_iff hs same.ctorIdx).mp same
    obtain ⟨hlength', same'⟩ := (same_products_iff ht' same'.ctorIdx).mp same'
    refine ⟨hlength.trans hlength', fun i hi hi' => ?_⟩
    have hi'' : i < t.args.length := hlength ▸ hi
    exact (h _ (List.get_mem _ _)).trans (tparts _ (List.get_mem _ _)) (uparts _ (List.get_mem _ _))
      (same i hi hi'') (same' i hi'' hi')
  inhabits {t} ht same named v := by
    have parts := ht.parts (isProduct_of_ctorIdx hs same.ctorIdx)
    have hidx := same.ctorIdx
    obtain ⟨hlength, same⟩ := (same_products_iff hs hidx).mp same
    refine inhabits_products hs hidx (List.forall₂_iff_get.mpr ⟨hlength, fun i hi hi' => ?_⟩) v
    exact (h _ (List.get_mem _ _)).inhabits (parts _ (List.get_mem _ _)) (same i hi hi') named

theorem union {ss : List StaticType} (hss : ∀ s ∈ ss, Comparable built s ∧ Settled built s)
    (apart : ss.Pairwise fun s t => equal s t = .ok false) : Comparable built (.union ss) := by
  -- Unions are compared by looking for each member on one side only. That this finds all members of
  -- the other side takes that both have as many and that no two of these are the same.
  have back {ts : List StaticType} (hts : ∀ t ∈ ts, Settled built t)
      (hlength : ss.length = ts.length) (forth : ∀ s ∈ ss, ∃ t ∈ ts, Same s t) :
      ∀ t ∈ ts, ∃ s ∈ ss, Same s t := by
    refine exists_match_of_length_eq hlength forth ?_
    refine apart.imp_of_mem ?_
    intro s s' hs hs' differ t ht same same'
    have : Same s s' := (hss s hs).1.trans (hts t ht) (hss s' hs').2 same
      ((hss s' hs').1.symm (hts t ht) same')
    rw [Same, differ] at this
    cases this
  refine ⟨fun ht same => ?_, fun ht hu same same' => ?_, fun ht same named v => ?_⟩
  · obtain ⟨ts, rfl, hts, _⟩ := ht.exists_union same.ctorIdx
    obtain ⟨hlength, forth⟩ := (same_unions_iff (fun s hs => (hss s hs).2) hts).mp same
    refine (same_unions_iff hts fun s hs => (hss s hs).2).mpr ⟨hlength.symm, ?_⟩
    intro t ht
    obtain ⟨s, hs, same⟩ := back hts hlength forth t ht
    exact ⟨s, hs, (hss s hs).1.symm (hts t ht) same⟩
  · obtain ⟨ts, rfl, hts, _⟩ := ht.exists_union same.ctorIdx
    obtain ⟨us, rfl, hus, _⟩ := hu.exists_union same'.ctorIdx
    obtain ⟨hlength, forth⟩ := (same_unions_iff (fun s hs => (hss s hs).2) hts).mp same
    obtain ⟨hlength', forth'⟩ := (same_unions_iff hts hus).mp same'
    refine (same_unions_iff (fun s hs => (hss s hs).2) hus).mpr ⟨hlength.trans hlength', ?_⟩
    intro s hs
    obtain ⟨t, ht, same⟩ := forth s hs
    obtain ⟨u, hu, same'⟩ := forth' t ht
    exact ⟨u, hu, (hss s hs).1.trans (hts t ht) (hus u hu) same same'⟩
  · obtain ⟨ts, rfl, hts, _⟩ := ht.exists_union same.ctorIdx
    obtain ⟨hlength, forth⟩ := (same_unions_iff (fun s hs => (hss s hs).2) hts).mp same
    rw [inhabits_union_iff, inhabits_union_iff]
    constructor
    · rintro ⟨s, hs, hv⟩
      obtain ⟨t, ht, same⟩ := forth s hs
      exact ⟨t, ht, ((hss s hs).1.inhabits (hts t ht) same named v).mp hv⟩
    · rintro ⟨t, ht, hv⟩
      obtain ⟨s, hs, same⟩ := back hts hlength forth t ht
      exact ⟨s, hs, ((hss s hs).1.inhabits (hts t ht) same named v).mpr hv⟩

end Comparable

/-- Settled types that are found equal have the same values. -/
theorem Settled.comparable (identified : Identified built) {s : StaticType} (h : Settled built s) :
    Comparable built s := by
  induction h with
  | never | any | none =>
    refine .of_eq fun t _ same => ?_
    have hidx := same.ctorIdx
    cases t <;> cases hidx
    rfl
  | plain p =>
    refine .of_eq fun t _ same => ?_
    have hidx := same.ctorIdx
    cases t <;> cases hidx
    rw [Same, equal, Except.ok.injEq] at same
    rw [eq_of_beq same]
  | reference name =>
    refine .of_eq fun t _ same => ?_
    have hidx := same.ctorIdx
    cases t <;> cases hidx
    rw [Same, equal, Except.ok.injEq] at same
    rw [eq_of_beq same]
  | shape hs =>
    refine .of_eq fun t ht same => ?_
    have hidx := same.ctorIdx
    cases ht with
    | shape ht =>
      rw [Same, equal, Except.ok.injEq] at same
      obtain rfl := eq_of_beq same
      obtain ⟨rfl, rfl, rfl⟩ := identified _ _ _ _ _ _ _ hs ht
      rfl
    | _ => cases hidx
  | literal h => exact .literal h
  | list _ ih =>
    refine .product rfl fun p hp => ?_
    obtain rfl := List.mem_singleton.mp hp
    exact ih
  | dict _ _ ihkey ihvalue =>
    refine .product rfl fun p hp => ?_
    rcases List.mem_cons.mp hp with rfl | hp
    · exact ihkey
    · obtain rfl := List.mem_singleton.mp hp
      exact ihvalue
  | tuple _ ih => exact .product rfl ih
  | union hsettled apart ih => exact .union (fun s hs => ⟨ih s hs, hsettled s hs⟩) apart

end

end StaticType

end Schemata
