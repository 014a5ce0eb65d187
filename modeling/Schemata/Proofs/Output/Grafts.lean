import Schemata.Proofs.Output.Equality

/-!
# Grafting output types

The outputs of objects stand in an output type as shapes that are complete or as references to shapes.
Other outputs can be grafted in their place. If that makes none of them equal that were not, and keeps
equal those that were, it does not matter whether unions are formed before or after.
-/

namespace Schemata

namespace StaticType

/-! ## Parts of types -/

theorem sizeOf_lt_of_mem_args {t a : StaticType} (h : a ∈ t.args) : sizeOf a < sizeOf t := by
  cases t with
  | schema c args =>
    cases args with
    | none => cases h
    | some args =>
      have : sizeOf a < sizeOf args := List.sizeOf_lt_of_mem h
      simp only [schema.sizeOf_spec, Option.some.sizeOf_spec]
      omega
  | list item =>
    obtain rfl := List.mem_singleton.mp h
    simp
  | dict key value =>
    rcases List.mem_pair.mp h with rfl | rfl <;> simp +arith
  | tuple items =>
    have : sizeOf a < sizeOf items := List.sizeOf_lt_of_mem h
    simp only [tuple.sizeOf_spec]
    omega
  | union members =>
    have : sizeOf a < sizeOf members := List.sizeOf_lt_of_mem h
    simp only [union.sizeOf_spec]
    omega
  | _ => cases h

/-- What holds of a type if it holds of its parameters holds of all types. -/
theorem args_induction {P : StaticType → Prop} (step : ∀ t, (∀ a ∈ t.args, P a) → P t)
    (t : StaticType) : P t :=
  step t fun a _ => args_induction step a
termination_by sizeOf t
decreasing_by exact sizeOf_lt_of_mem_args (by assumption)

/-- A type with other parameters, as many as it has. -/
def withArgs : StaticType → List StaticType → StaticType
  | schema c (some _), args => schema c (some args)
  | list _, [item] => list item
  | dict _ _, [key, value] => dict key value
  | tuple _, items => tuple items
  | union _, members => union members
  | t, _ => t

@[simp] theorem withArgs_args (t : StaticType) : t.withArgs t.args = t := by
  cases t with
  | schema c args => cases args <;> rfl
  | _ => rfl

section

variable {t : StaticType} {ts us : List StaticType}

@[simp] theorem args_withArgs (h : ts.length = t.args.length) : (t.withArgs ts).args = ts := by
  cases t with
  | schema c args =>
    cases args with
    | none => exact (List.eq_nil_of_length_eq_zero h).symm
    | some args => rfl
  | list item =>
    obtain ⟨a, rfl⟩ := List.length_eq_one_iff.mp h
    rfl
  | dict key value =>
    obtain ⟨a, b, rfl⟩ := List.length_eq_two.mp h
    rfl
  | tuple | union => rfl
  | _ => exact (List.eq_nil_of_length_eq_zero h).symm

@[simp] theorem withArgs_withArgs (h : ts.length = t.args.length) (h' : us.length = t.args.length) :
    (t.withArgs ts).withArgs us = t.withArgs us := by
  cases t with
  | schema c args => cases args <;> rfl
  | list item =>
    obtain ⟨a, rfl⟩ := List.length_eq_one_iff.mp h
    obtain ⟨b, rfl⟩ := List.length_eq_one_iff.mp h'
    rfl
  | dict key value =>
    obtain ⟨a, b, rfl⟩ := List.length_eq_two.mp h
    obtain ⟨c, d, rfl⟩ := List.length_eq_two.mp h'
    rfl
  | _ => rfl

@[simp] theorem ctorIdx_withArgs (h : ts.length = t.args.length) : (t.withArgs ts).ctorIdx = t.ctorIdx := by
  cases t with
  | schema c args => cases args <;> rfl
  | list item =>
    obtain ⟨a, rfl⟩ := List.length_eq_one_iff.mp h
    rfl
  | dict key value =>
    obtain ⟨a, b, rfl⟩ := List.length_eq_two.mp h
    rfl
  | _ => rfl

/-! ## Joints -/

/-- Whether a type stands for the output of an object. -/
def isJoint : StaticType → Bool
  | reference _ | shape (.output _) _ _ _ => true
  | _ => false

@[simp] theorem isJoint_withArgs (h : ts.length = t.args.length) : (t.withArgs ts).isJoint = t.isJoint := by
  cases t with
  | schema c args => cases args <;> rfl
  | list item =>
    obtain ⟨a, rfl⟩ := List.length_eq_one_iff.mp h
    rfl
  | dict key value =>
    obtain ⟨a, b, rfl⟩ := List.length_eq_two.mp h
    rfl
  | _ => rfl

end

/-- The outputs of objects that a type is made of. Neither they nor other shapes are entered. -/
def joints (t : StaticType) : List StaticType :=
  if t.isJoint then [t] else t.args.attach.flatMap fun ⟨a, _⟩ => a.joints
termination_by sizeOf t
decreasing_by exact sizeOf_lt_of_mem_args (by assumption)

/-- The type with other outputs of objects in the place of its own. -/
def graft (f : StaticType → StaticType) (t : StaticType) : StaticType :=
  if t.isJoint then f t else t.withArgs (t.args.attach.map fun ⟨a, _⟩ => a.graft f)
termination_by sizeOf t
decreasing_by exact sizeOf_lt_of_mem_args (by assumption)

variable {f g : StaticType → StaticType} {s t : StaticType}

@[simp] theorem joints_of_isJoint (h : t.isJoint = true) : t.joints = [t] := by
  rw [joints, if_pos h]

@[simp] theorem joints_of_not_isJoint (h : t.isJoint = false) : t.joints = t.args.flatMap joints := by
  rw [joints, h]
  simp

theorem joints_of_args_nil (h : t.isJoint = false) (ht : t.args = []) : t.joints = [] := by
  simp [h, ht]

theorem joints_subset_of_mem_args {a : StaticType} (h : t.isJoint = false) (ha : a ∈ t.args) :
    a.joints ⊆ t.joints := by
  intro m hm
  simpa [h] using ⟨a, ha, hm⟩

@[simp] theorem graft_of_isJoint (h : t.isJoint = true) : t.graft f = f t := by
  rw [graft, if_pos h]

@[simp] theorem graft_of_not_isJoint (h : t.isJoint = false) :
    t.graft f = t.withArgs (t.args.map (graft f)) := by
  rw [graft, h]
  simp

theorem ctorIdx_graft (h : t.isJoint = false) : (t.graft f).ctorIdx = t.ctorIdx := by
  simp [h]

/-- Only the joints of a type matter for what is grafted. -/
theorem graft_congr (h : ∀ m ∈ t.joints, f m = g m) : t.graft f = t.graft g := by
  induction t using args_induction with
  | step t ih =>
    cases ht : t.isJoint with
    | true => simpa [ht] using h t (by simp [ht])
    | false =>
      rw [graft_of_not_isJoint ht, graft_of_not_isJoint ht]
      refine congrArg t.withArgs (List.map_congr_left fun a ha => ih a ha fun m hm => ?_)
      exact h m (joints_subset_of_mem_args ht ha hm)

@[simp] theorem graft_id (t : StaticType) : t.graft id = t := by
  induction t using args_induction with
  | step t ih =>
    cases ht : t.isJoint with
    | true => simp [ht]
    | false => rw [graft_of_not_isJoint ht, List.map_congr_left ih, List.map_id', withArgs_args]

/-- A type without joints stays as it is. -/
theorem graft_of_joints_nil (h : t.joints = []) : t.graft f = t := by
  have nothing : ∀ m ∈ t.joints, f m = id m := by simp [h]
  rw [graft_congr nothing, graft_id]

/-- Grafting twice is grafting once. -/
theorem graft_graft (t : StaticType) : (t.graft f).graft g = t.graft fun m => (f m).graft g := by
  induction t using args_induction with
  | step t ih =>
    cases ht : t.isJoint with
    | true => simp [ht]
    | false =>
      simp only [ht, graft_of_not_isJoint, isJoint_withArgs, args_withArgs, withArgs_withArgs,
        List.length_map, List.map_map]
      exact congrArg t.withArgs (List.map_congr_left ih)

/-- What is grafted brings its joints along. -/
theorem joints_graft (t : StaticType) : (t.graft f).joints = t.joints.flatMap fun m => (f m).joints := by
  induction t using args_induction with
  | step t ih =>
    cases ht : t.isJoint with
    | true => simp [ht]
    | false => simpa [ht, List.flatMap_assoc, List.flatMap_map] using List.flatMap_congr ih

/-! ## Comparing what is grafted -/

/-- Outputs of objects are grafted, and two of them are equal if those are that they replace. -/
structure Faithful (f : StaticType → StaticType) (joints : List StaticType) : Prop where
  isJoint {m : StaticType} : m ∈ joints → (f m).isJoint = true
  equal {m n : StaticType} : m ∈ joints → n ∈ joints → equal (f m) (f n) = equal m n

/-- An output of an object is equal to nothing else. -/
theorem equal_of_isJoint_ne (h : s.isJoint ≠ t.isJoint) : equal s t = .ok false := by
  by_cases hidx : s.ctorIdx = t.ctorIdx
  · cases s with
    | shape m =>
      cases t <;> cases hidx
      next n _ _ _ =>
        rw [equal]
        cases m <;> cases n <;> first | rfl | exact absurd rfl h
    | _ =>
      cases t <;> cases hidx
      exact absurd rfl h
  · exact equal_of_ctorIdx_ne hidx

section

variable {ss ts : List StaticType}

theorem equalAll_map (h : ∀ s ∈ ss, ∀ t ∈ ts, equal (g s) (g t) = equal s t) :
    equalAll (ss.map g) (ts.map g) = equalAll ss ts := by
  induction ss generalizing ts with
  | nil => cases ts <;> simp [equalAll]
  | cons s rest ih =>
    cases ts with
    | nil => simp [equalAll]
    | cons t ts =>
      have tails := ih fun s hs t ht =>
        h s (List.mem_cons_of_mem _ hs) t (List.mem_cons_of_mem _ ht)
      rw [List.map_cons, List.map_cons, equalAll, equalAll, tails,
        h s List.mem_cons_self t List.mem_cons_self]

theorem anyM_map {p q : StaticType → Except Failure Bool} (h : ∀ t ∈ ts, p (g t) = q t) :
    (ts.map g).anyM p = ts.anyM q := by
  induction ts with
  | nil => rfl
  | cons t rest ih =>
    obtain ⟨ht, hrest⟩ := List.forall_mem_cons.mp h
    rw [List.map_cons, List.anyM, List.anyM, ht, ih hrest]

theorem allIn_map (h : ∀ s ∈ ss, ∀ t ∈ ts, equal (g s) (g t) = equal s t) :
    allIn (ss.map g) (ts.map g) = allIn ss ts := by
  induction ss with
  | nil => simp [allIn]
  | cons s rest ih =>
    obtain ⟨hs, hrest⟩ := List.forall_mem_cons.mp h
    rw [List.map_cons, allIn, allIn, anyM_map hs, ih hrest]

/-- Types that are no outputs of objects are compared by their parameters. -/
theorem equal_withArgs (h : ∀ a ∈ s.args, ∀ b ∈ t.args, equal (g a) (g b) = equal a b) :
    equal (s.withArgs (s.args.map g)) (t.withArgs (t.args.map g)) = equal s t := by
  have hs : (s.withArgs (s.args.map g)).ctorIdx = s.ctorIdx := by simp
  have ht : (t.withArgs (t.args.map g)).ctorIdx = t.ctorIdx := by simp
  by_cases hidx : s.ctorIdx = t.ctorIdx
  · cases product : s.isProduct with
    | true =>
      have hidx' := hs.trans (hidx.trans ht.symm)
      rw [equal_products product hidx, equal_products (isProduct_of_ctorIdx product hs.symm) hidx',
        args_withArgs (List.length_map _), args_withArgs (List.length_map _), equalAll_map h]
    | false =>
      cases s with
      | schema c args =>
        cases t <;> cases hidx
        next d args' =>
          cases args <;> cases args' <;> simp only [withArgs, StaticType.args, equal]
          next as bs =>
            have all : equalAll (as.map g) (bs.map g) = equalAll as bs := equalAll_map h
            rw [all]
      | union members =>
        cases t <;> cases hidx
        next members' =>
          have each : allIn (members.map g) (members'.map g) = allIn members members' := allIn_map h
          simp only [withArgs, args, equal, List.length_map, each]
      | list | dict | tuple => cases product
      | _ =>
        cases t <;> cases hidx
        rfl
  · rw [equal_of_ctorIdx_ne hidx, equal_of_ctorIdx_ne]
    rwa [hs, ht]

/-- Whether types are equal is not changed by what is grafted faithfully. -/
theorem equal_graft {joints : List StaticType} (h : Faithful f joints) (hs : s.joints ⊆ joints)
    (ht : t.joints ⊆ joints) : equal (s.graft f) (t.graft f) = equal s t := by
  induction s using args_induction generalizing t with
  | step s ih =>
    have grafted {t : StaticType} (ht : t.joints ⊆ joints) :
        (t.graft f).isJoint = t.isJoint := by
      cases joint : t.isJoint with
      | true =>
        have mem : t ∈ joints := ht (by simp [joint])
        rw [graft_of_isJoint joint, h.isJoint mem]
      | false => simp [joint]
    -- grafting leaves joints where they are, so a joint meets a joint before and after, or never
    by_cases same : s.isJoint = t.isJoint
    · cases joint : s.isJoint with
      | true =>
        have joint' : t.isJoint = true := same ▸ joint
        have mem : s ∈ joints := hs (by simp [joint])
        have mem' : t ∈ joints := ht (by simp [joint'])
        simp [joint, joint', h.equal mem mem']
      | false =>
        have joint' : t.isJoint = false := same ▸ joint
        rw [graft_of_not_isJoint joint, graft_of_not_isJoint joint']
        refine equal_withArgs fun a ha b hb => ih a ha ?_ ?_
        · exact List.Subset.trans (joints_subset_of_mem_args joint ha) hs
        · exact List.Subset.trans (joints_subset_of_mem_args joint' hb) ht
    · rw [equal_of_isJoint_ne same, equal_of_isJoint_ne]
      rwa [grafted hs, grafted ht]

/-! ## Unions -/

theorem distinct_map (h : ∀ s ∈ ts, ∀ t ∈ ts, equal (g s) (g t) = equal s t) :
    distinct (ts.map g) = (distinct ts).map (List.map g) := by
  have loop {kept rest : List StaticType} (hkept : kept ⊆ ts) (hrest : rest ⊆ ts) :
      (rest.map g).foldlM (fun kept t => do
          if ← kept.anyM (equal · t) then return kept else return kept ++ [t]) (kept.map g)
        = (rest.foldlM (fun kept t => do
          if ← kept.anyM (equal · t) then return kept else return kept ++ [t]) kept :
            Except Failure (List StaticType)).map (List.map g) := by
    induction rest generalizing kept with
    | nil => rfl
    | cons t rest ih =>
      obtain ⟨ht, hrest⟩ := List.cons_subset.mp hrest
      have compared : (kept.map g).anyM (equal · (g t)) = kept.anyM (equal · t) :=
        anyM_map fun k hk => h k (hkept hk) t ht
      rw [List.map_cons, List.foldlM_cons, List.foldlM_cons, compared]
      rcases kept.anyM (equal · t) with failure | _ | _
      · rfl
      · have both : kept ++ [t] ⊆ ts := List.append_subset.mpr ⟨hkept, by simpa using ht⟩
        have := ih both hrest
        rw [List.map_append] at this
        exact this
      · exact ih hkept hrest
  exact loop (List.nil_subset _) (List.Subset.refl _)

theorem distinct_subset (h : distinct ts = .ok ss) : ss ⊆ ts := by
  have loop {kept rest : List StaticType} (h : rest.foldlM (fun kept t => do
      if ← kept.anyM (equal · t) then return kept else return kept ++ [t]) kept
        = (.ok ss : Except Failure (List StaticType))) : ss ⊆ kept ++ rest := by
    induction rest generalizing kept with
    | nil =>
      cases h
      simp
    | cons t rest ih =>
      rw [List.foldlM_cons] at h
      rcases hany : kept.anyM (equal · t) with failure | _ | _
      · rw [hany] at h
        cases h
      · rw [hany] at h
        simpa using ih h
      · rw [hany] at h
        intro s hs
        rcases List.mem_append.mp (ih h hs) with hs | hs
        · exact List.mem_append_left _ hs
        · exact List.mem_append_right _ (List.mem_cons_of_mem _ hs)
  exact loop h

@[simp] theorem joints_union (members : List StaticType) :
    (union members).joints = members.flatMap joints :=
  joints_of_not_isJoint rfl

@[simp] theorem graft_union (members : List StaticType) :
    (union members).graft f = union (members.map (graft f)) :=
  graft_of_not_isJoint rfl

theorem flatMap_joints_unionMembers (t : StaticType) : t.unionMembers.flatMap joints = t.joints := by
  cases t with
  | union members => exact (joints_union members).symm
  | _ => exact List.flatMap_singleton _ _

/-- A union has no joints but those of the types that it is made of. -/
theorem joints_unionOf (h : unionOf ts = .ok t) : t.joints ⊆ ts.flatMap joints := by
  have members : ∀ kept, distinct (ts.flatMap unionMembers) = .ok kept →
      kept.flatMap joints ⊆ ts.flatMap joints := by
    intro kept hkept m hm
    obtain ⟨k, hk, hm⟩ := List.mem_flatMap.mp hm
    obtain ⟨t, ht, hk⟩ := List.mem_flatMap.mp (distinct_subset hkept hk)
    refine List.mem_flatMap.mpr ⟨t, ht, ?_⟩
    rw [← flatMap_joints_unionMembers t]
    exact List.mem_flatMap.mpr ⟨k, hk, hm⟩
  unfold unionOf at h
  cases hkept : distinct (ts.flatMap unionMembers) with
  | error failure =>
    rw [hkept] at h
    cases h
  | ok kept =>
    rw [hkept] at h
    have sub := members kept hkept
    match kept with
    | [only] =>
      cases h
      simpa using sub
    | [] =>
      cases h
      simp
    | _ :: _ :: _ =>
      cases h
      rwa [joints_union]

theorem unionMembers_graft (h : t.isJoint = true → (f t).isJoint = true) :
    (t.graft f).unionMembers = t.unionMembers.map (graft f) := by
  cases ht : t.isJoint with
  | true =>
    have single {t : StaticType} (ht : t.isJoint = true) : t.unionMembers = [t] := by
      cases t <;> first | rfl | cases ht
    rw [graft_of_isJoint ht, single (h ht), single ht, List.map_singleton, graft_of_isJoint ht]
  | false =>
    have hidx := ctorIdx_graft (f := f) ht
    cases t with
    | union members =>
      rw [graft_union]
      rfl
    | _ =>
      generalize hu : graft f _ = u at hidx
      cases u <;> cases hidx
      exact congrArg ([·]) hu.symm

/-- Grafting and forming unions can be done in either order. -/
theorem unionOf_graft {joints : List StaticType} (h : Faithful f joints)
    (hts : ∀ t ∈ ts, t.joints ⊆ joints) :
    unionOf (ts.map (graft f)) = (unionOf ts).map (graft f) := by
  -- no union is grafted, so the members are those from before with something grafted
  have flat : (ts.map (graft f)).flatMap unionMembers
      = (ts.flatMap unionMembers).map (graft f) := by
    rw [List.flatMap_map, List.map_flatMap]
    refine List.flatMap_congr fun t ht => unionMembers_graft fun joint => h.isJoint (hts t ht ?_)
    simp [joint]
  have members : ∀ m ∈ ts.flatMap unionMembers, m.joints ⊆ joints := by
    intro m hm
    obtain ⟨t, ht, hm⟩ := List.mem_flatMap.mp hm
    refine List.Subset.trans ?_ (hts t ht)
    rw [← flatMap_joints_unionMembers t]
    exact fun j hj => List.mem_flatMap.mpr ⟨m, hm, hj⟩
  unfold unionOf
  rw [flat, distinct_map fun s hs t ht => equal_graft h (members s hs) (members t ht)]
  rcases distinct (ts.flatMap unionMembers) with failure | kept
  · rfl
  · match kept with
    | [] => exact congrArg Except.ok (graft_union []).symm
    | [only] => rfl
    | a :: b :: rest => exact congrArg Except.ok (graft_union (a :: b :: rest)).symm

end

end StaticType

end Schemata
