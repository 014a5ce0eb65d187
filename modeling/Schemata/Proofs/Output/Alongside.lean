import Schemata.Proofs.Output.Skeletons

/-!
# Output types alongside their skeletons

A computation of an output type runs alongside the one that finds its skeleton. If it succeeds, so does
the other, and what is found differs only in what stands in the place of the stubs.
-/

namespace Schemata

namespace Shapes

variable {shapes : Shapes} {names : Names} {limit : Nat} {start cache : OutputCache}
  {building : List ShapeId} {α β : Type}

/-- A computation of output types that succeeds keeps what is remembered sound, and the same
computation with all shapes complete gives a skeleton of its result. -/
def Alongside (shapes : Shapes) (names : Names) (limit : Nat) (start : OutputCache)
    (building : List ShapeId) (result : OutputCache → α → α → Prop) (outline m : Outputting α)
    (cache : OutputCache) : Prop :=
  ∀ a cache', m.exec cache = (.ok a, cache') →
    shapes.Sound names limit start building cache' ∧ cache.Le cache' ∧
      ∃ skeleton, outline.exec shapes.stubs = (.ok skeleton, shapes.stubs) ∧ result cache' skeleton a

namespace Alongside

variable {result : OutputCache → α → α → Prop}

theorem pure {skeleton a : α} (sound : shapes.Sound names limit start building cache)
    (h : result cache skeleton a) :
    shapes.Alongside names limit start building result (Pure.pure skeleton) (Pure.pure a) cache := by
  rintro a cache' ⟨⟩
  exact ⟨sound, .refl _, skeleton, rfl, h⟩

/-- One computation after another. -/
theorem bind {result' : OutputCache → β → β → Prop} {outline m : Outputting α}
    {outline' f : α → Outputting β}
    (h : shapes.Alongside names limit start building result outline m cache)
    (next : ∀ cache' skeleton a, cache.Le cache' → shapes.Sound names limit start building cache' →
      result cache' skeleton a →
      shapes.Alongside names limit start building result' (outline' skeleton) (f a) cache') :
    shapes.Alongside names limit start building result' (outline >>= outline') (m >>= f) cache := by
  intro b cache'' hb
  obtain ⟨a, cache', ha, hb⟩ := Stateful.exec_bind_eq_ok hb
  obtain ⟨sound, hle, skeleton, hskeleton, related⟩ := h a cache' ha
  obtain ⟨sound', hle', skeleton', hskeleton', related'⟩ :=
    next cache' skeleton a hle sound related b cache'' hb
  refine ⟨sound', hle.trans hle', skeleton', ?_, related'⟩
  rw [Stateful.exec_bind_ok hskeleton]
  exact hskeleton'

theorem throw {failure : Failure} {outline : Outputting α} :
    shapes.Alongside names limit start building result outline (MonadExcept.throw failure) cache := by
  rintro a cache' ⟨⟩

end Alongside

/-! ## Parts of output types -/

theorem Shows.of_joints_nil {t : StaticType} (h : t.joints = []) :
    shapes.Shows building cache t t where
  reached hm := absurd (h ▸ hm) List.not_mem_nil
  shown := (StaticType.graft_of_joints_nil h).symm

/-- Types that show their skeletons have stubs that are reached, and differ from them only there. -/
theorem Shows.all {skeletons ts : List StaticType}
    (h : List.Forall₂ (shapes.Shows building cache) skeletons ts) :
    (∀ m ∈ skeletons.flatMap StaticType.joints, shapes.Reached building cache m) ∧
      ts = skeletons.map (StaticType.graft cache.shown) := by
  constructor
  · intro m hm
    obtain ⟨s, hs, hm⟩ := List.mem_flatMap.mp hm
    obtain ⟨u, _, hu⟩ := exists_right_of_forall₂ h hs
    exact hu.reached hm
  · rw [← List.forall₂_eq_eq_eq, List.forall₂_map_right_iff]
    exact h.flip.imp fun _ _ hu => hu.shown

/-- A type shows its skeleton if its parameters show the parameters of the skeleton. -/
theorem Shows.withArgs {t : StaticType} {skeletons ts : List StaticType} (ht : t.isJoint = false)
    (h : List.Forall₂ (shapes.Shows building cache) skeletons ts)
    (length : skeletons.length = t.args.length) :
    shapes.Shows building cache (t.withArgs skeletons) (t.withArgs ts) := by
  obtain ⟨reached, grafted⟩ := Shows.all h
  constructor
  · intro m hm
    exact reached m (by simpa [ht, length] using hm)
  · simp [ht, length, grafted]

/-- A union of types shows the union of their skeletons. -/
theorem alongside_unionOf (closed : shapes.Closed names) {skeletons ts : List StaticType}
    (sound : shapes.Sound names limit start building cache)
    (h : List.Forall₂ (shapes.Shows building cache) skeletons ts) :
    shapes.Alongside names limit start building (shapes.Shows building)
      (liftM (StaticType.unionOf skeletons)) (liftM (StaticType.unionOf ts)) cache := by
  obtain ⟨reached, grafted⟩ := Shows.all h
  have commute := StaticType.unionOf_graft (sound.faithful closed reached)
    fun s hs m hm => List.mem_flatMap.mpr ⟨s, hs, hm⟩
  intro u cache' hu
  rw [grafted, commute] at hu
  cases hskeleton : StaticType.unionOf skeletons with
  | error failure =>
    rw [hskeleton] at hu
    cases hu
  | ok skeleton =>
    rw [hskeleton] at hu
    cases hu
    exact ⟨sound, .refl _, skeleton, rfl,
      fun hm => reached _ (StaticType.joints_unionOf hskeleton hm), rfl⟩

/-- What leaves give has no joints. -/
theorem alongside_leaf {c : SchemaClass} {args : Option (List StaticType)} (hc : c.kind = .leaf)
    (h : shapes.Within (.schema c args)) {objects references : Nat}
    (sound : shapes.Sound names limit start building cache) :
    shapes.Alongside names limit start building (shapes.Shows building)
      (names.outputIn limit 0 references [] (.schema c args))
      (names.outputIn limit objects references building (.schema c args)) cache := by
  have bare : (StaticType.ofLeafClass c).joints = [] := by
    cases c <;> exact StaticType.joints_of_args_nil rfl rfl
  match args with
  | none =>
    cases c <;> cases hc <;> simp only [Names.outputIn] <;> exact .pure sound (.of_joints_nil bare)
  | some [] =>
    cases c <;> cases hc <;> simp only [Names.outputIn] <;> exact .pure sound (.of_joints_nil bare)
  | some (a :: _) =>
    have finished := h.joints_of_leaf hc a List.mem_cons_self
    cases c <;> cases hc <;> simp only [Names.outputIn] <;>
      exact .pure sound (.of_joints_nil finished)

theorem joints_anyDict : (StaticType.dict (.plain .str) .any).joints = [] := by
  have str : (StaticType.plain .str).joints = [] := StaticType.joints_of_args_nil rfl rfl
  have any : (StaticType.any).joints = [] := StaticType.joints_of_args_nil rfl rfl
  rw [StaticType.joints_of_not_isJoint rfl]
  simp [StaticType.args, str, any]

/-! ## Objects -/

theorem shows_stub {id : ShapeId} {name : String} {fields : List (String × StaticType)}
    {t : StaticType} (hid : shapes.lookup id = some (name, fields))
    (later : id ∈ building ∨ (cache.lookup id).isSome = true)
    (shown : t = cache.shown (stub id name)) : shapes.Shows building cache (stub id name) t where
  reached hm := by
    rw [StaticType.joints_of_isJoint rfl, List.mem_singleton] at hm
    rw [hm]
    exact ⟨hid, later⟩
  shown := by rw [StaticType.graft_of_isJoint rfl, shown]

/-- A shape that is neither complete nor being built is completed if its fields can be. -/
theorem newShape_alongside {id : ShapeId} {name : String}
    {fields looked : List (String × StaticType)} {objects : Nat} {u : StaticType}
    {cache' : OutputCache} (hid : shapes.lookup id = some (name, fields)) (new : id ∉ building)
    (hlooked : names.fieldsOf id fields = (looked, none))
    (each : shapes.Alongside names limit start (id :: building)
      (fun cache' => List.Forall₂ (SameField (shapes.Shows (id :: building) cache')))
      (names.outputFields limit 0 (names.derived.length + 1) [] looked)
      (names.outputFields limit objects (names.derived.length + 1) (id :: building) looked) cache)
    (hu : (do
        let made ← names.outputFields limit objects (names.derived.length + 1) (id :: building) looked
        modify fun cache => (id, Names.shapeOf id name made) :: cache
        return Names.shapeOf id name made : Outputting StaticType).exec cache = (.ok u, cache')) :
    shapes.Sound names limit start building cache' ∧ cache.Le cache' ∧
      shapes.Shows building cache' (stub id name) u := by
  obtain ⟨made, cache₁, hmade, hu⟩ := Stateful.exec_bind_eq_ok hu
  obtain ⟨inside, hle, skeletons, hskeletons, same⟩ := each made cache₁ hmade
  cases hu
  have added := OutputCache.Le.cons (inside.missing List.mem_cons_self)
    (Names.shapeOf id name made)
  have self : List.lookup id ((id, Names.shapeOf id name made) :: cache₁)
      = some (Names.shapeOf id name made) := by simp
  refine ⟨inside.complete new hid ⟨looked, hlooked, hskeletons⟩ same, hle.trans added, ?_⟩
  exact shows_stub hid (.inr (by rw [self]; rfl)) (shown_complete self name).symm

/-! ## Every type -/

mutual

/-- The computation of an output type runs alongside that of its skeleton. -/
theorem outputIn_alongside (closed : shapes.Closed names) (objects references : Nat)
    {t : StaticType} (ht : shapes.Within t) {building : List ShapeId} {cache : OutputCache}
    (sound : shapes.Sound names limit start building cache) :
    shapes.Alongside names limit start building (shapes.Shows building)
      (names.outputIn limit 0 references [] t) (names.outputIn limit objects references building t)
      cache := by
  have never : (StaticType.never).joints = [] := StaticType.joints_of_args_nil rfl rfl
  have nothing : (StaticType.none).joints = [] := StaticType.joints_of_args_nil rfl rfl
  cases t with
  | schema c args =>
    by_cases hc : c.kind = .leaf
    · exact alongside_leaf hc ht sound
    -- The skeleton is computed with all shapes complete, so it needs no room for objects. The classes
    -- differ in which arguments they use and what they make of them.
    have arg (position : Nat) {cache : OutputCache}
        (sound : shapes.Sound names limit start building cache) :
        shapes.Alongside names limit start building (shapes.Shows building)
          (names.outputOfArg limit 0 references [] args position)
          (names.outputOfArg limit objects references building args position) cache := by
      cases args with
      | none =>
        simp only [Names.outputOfArg]
        exact .pure sound (.of_joints_nil never)
      | some args => exact outputOfArg_alongside closed objects references (ht.args hc) position sound
    cases c with
    | object => exact object_alongside closed objects references ht sound
    | array =>
      simp only [Names.outputIn]
      refine (arg 0 sound).bind fun cache' skeleton u _ sound' hu => .pure sound' ?_
      exact Shows.withArgs (t := .list .never) rfl (.cons hu .nil) rfl
    | record =>
      simp only [Names.outputIn]
      refine (arg 0 sound).bind fun cache₁ k key _ sound₁ hkey => ?_
      refine (arg 1 sound₁).bind fun cache₂ v value hle sound₂ hvalue => .pure sound₂ ?_
      -- What was shown for the key is still shown when the value has completed further shapes.
      have hkey' := hkey.mono hle fun _ => sound₂.missing
      exact Shows.withArgs (t := .dict .never .never) rfl (.cons hkey' (.cons hvalue .nil)) rfl
    | tuple =>
      cases args with
      | none =>
        simp only [Names.outputIn]
        exact .pure sound (.of_joints_nil (StaticType.joints_of_args_nil rfl rfl))
      | some args =>
        simp only [Names.outputIn]
        refine (outputsIn_alongside closed objects references (ht.args hc) sound).bind ?_
        intro cache' skeletons us _ sound' hus
        refine .pure sound' ?_
        exact Shows.withArgs (t := .tuple skeletons) rfl hus rfl
    | union =>
      cases args with
      | none =>
        simp only [Names.outputIn]
        exact .pure sound (.of_joints_nil never)
      | some args =>
        simp only [Names.outputIn]
        split
        · exact .pure sound (.of_joints_nil never)
        · refine (outputsIn_alongside closed objects references (ht.args hc) sound).bind ?_
          intro cache' skeletons us _ sound' hus
          exact alongside_unionOf closed sound' hus
    | optional | nullable =>
      simp only [Names.outputIn]
      refine (arg 0 sound).bind fun cache' skeleton u _ sound' hu => ?_
      exact alongside_unionOf closed sound' (.cons hu (.cons (.of_joints_nil nothing) .nil))
    | default | readonly | lazy =>
      simp only [Names.outputIn]
      exact arg 0 sound
    | pipe =>
      simp only [Names.outputIn]
      exact arg 1 sound
    | _ => exact absurd rfl hc
  | _ =>
    simp only [Names.outputIn]
    exact .pure sound (.of_joints_nil never)
termination_by (objects, references, sizeOf t)

theorem outputsIn_alongside (closed : shapes.Closed names) (objects references : Nat)
    {ts : List StaticType} (hts : ∀ t ∈ ts, shapes.Within t) {building : List ShapeId}
    {cache : OutputCache} (sound : shapes.Sound names limit start building cache) :
    shapes.Alongside names limit start building
      (fun cache' => List.Forall₂ (shapes.Shows building cache'))
      (names.outputsIn limit 0 references [] ts)
      (names.outputsIn limit objects references building ts) cache := by
  cases ts with
  | nil =>
    simp only [Names.outputsIn]
    exact .pure sound .nil
  | cons t rest =>
    obtain ⟨ht, hrest⟩ := List.forall_mem_cons.mp hts
    simp only [Names.outputsIn]
    refine (outputIn_alongside closed objects references ht sound).bind ?_
    intro cache₁ skeleton u _ sound₁ hu
    refine (outputsIn_alongside closed objects references hrest sound₁).bind ?_
    intro cache₂ skeletons us hle sound₂ hus
    exact .pure sound₂ (.cons (hu.mono hle fun _ => sound₂.missing) hus)
termination_by (objects, references, sizeOf ts)

theorem outputOfArg_alongside (closed : shapes.Closed names) (objects references : Nat)
    {args : List StaticType} (hargs : ∀ a ∈ args, shapes.Within a) (position : Nat)
    {building : List ShapeId} {cache : OutputCache}
    (sound : shapes.Sound names limit start building cache) :
    shapes.Alongside names limit start building (shapes.Shows building)
      (names.outputOfArg limit 0 references [] (some args) position)
      (names.outputOfArg limit objects references building (some args) position) cache := by
  cases args with
  | nil =>
    simp only [Names.outputOfArg]
    exact .pure sound (.of_joints_nil (StaticType.joints_of_args_nil rfl rfl))
  | cons t rest =>
    obtain ⟨ht, hrest⟩ := List.forall_mem_cons.mp hargs
    cases position with
    | succ position =>
      rw [Names.outputOfArg, Names.outputOfArg]
      exact outputOfArg_alongside closed objects references hrest position sound
    | zero =>
      cases reference : t.isReference with
      | false =>
        rw [names.outputOfArg_zero reference, names.outputOfArg_zero reference]
        exact outputIn_alongside closed objects references ht sound
      | true =>
        obtain ⟨name, rfl⟩ := StaticType.exists_of_isReference reference
        cases references with
        | zero =>
          simp only [Names.outputOfArg]
          exact .throw
        | succ references =>
          rw [Names.outputOfArg, Names.outputOfArg]
          exact outputIn_alongside closed objects references (closed.derived name) sound
termination_by (objects, references, sizeOf args)

theorem object_alongside (closed : shapes.Closed names) (objects references : Nat)
    {args : Option (List StaticType)} (h : shapes.Within (.schema .object args))
    {building : List ShapeId} {cache : OutputCache}
    (sound : shapes.Sound names limit start building cache) :
    shapes.Alongside names limit start building (shapes.Shows building)
      (names.outputIn limit 0 references [] (.schema .object args))
      (names.outputIn limit objects references building (.schema .object args)) cache := by
  have within := h.arg closed (by rintro ⟨⟩) 0
  by_cases isShape : ∃ id name fields optional,
      names.arg (.schema .object args) 0 = .shape id name fields optional
  · obtain ⟨id, name, fields, optional, shape⟩ := isShape
    rw [shape] at within
    have hid := within.shape_lookup
    intro u cache' hu
    -- all shapes are complete for the skeleton, so it has the stub whatever is found here
    suffices shapes.Sound names limit start building cache' ∧ cache.Le cache' ∧
        shapes.Shows building cache' (stub id name) u by
      obtain ⟨sound', hle, shows⟩ := this
      exact ⟨sound', hle, _, names.exec_object_complete shape (lookup_stubs hid), shows⟩
    -- The shape is complete, being built or new. Only a new one is built, from fields that run
    -- alongside their skeletons, and only then the cache grows by the shape itself.
    cases complete : cache.lookup id with
    | some output =>
      rw [names.exec_object_complete shape complete] at hu
      cases hu
      exact ⟨sound, .refl _, shows_stub hid (.inr (by rw [complete]; rfl))
        (shown_complete complete name).symm⟩
    | none =>
      cases inside : building.contains id with
      | true =>
        rw [names.exec_object_building shape complete inside] at hu
        cases hu
        have hmem : id ∈ building := by simpa using inside
        exact ⟨sound, .refl _, shows_stub hid (.inl hmem) (shown_missing complete name).symm⟩
      | false =>
        cases objects with
        | zero =>
          rw [names.exec_object_exhausted shape complete inside] at hu
          cases hu
        | succ objects =>
          rcases hlooked : names.fieldsOf id fields with ⟨looked, _ | failure⟩
          · rw [names.exec_object_new shape complete inside hlooked] at hu
            have hfields : ∀ field ∈ looked, shapes.Within field.2 := by
              intro field hfield
              have hfield : field ∈ (names.fieldsOf id fields).1 := hlooked ▸ hfield
              obtain ⟨key, t, hmem, rfl⟩ := Names.exists_of_mem_fieldsOf hfield
              exact closed.field hid hmem
            have each := outputFields_alongside closed objects (names.derived.length + 1) hfields
              (sound.enter complete)
            exact newShape_alongside hid (by simpa using inside) hlooked each hu
          · rw [names.exec_object_fault shape complete inside hlooked] at hu
            obtain ⟨_, _, _, hu⟩ := Stateful.exec_bind_eq_ok hu
            cases hu
  · have noShape : ∀ objects building,
        names.outputIn limit objects references building (.schema .object args)
          = pure (.dict (.plain .str) .any) := by
      intro objects building
      rw [Names.outputIn, Names.outputOfShape]
      split
      · exact absurd ⟨_, _, _, _, by assumption⟩ isShape
      · rfl
    rw [noShape, noShape]
    exact .pure sound (.of_joints_nil joints_anyDict)
termination_by (objects, references, 0)

theorem outputFields_alongside (closed : shapes.Closed names) (objects references : Nat)
    {fields : List (String × StaticType)} (hfields : ∀ field ∈ fields, shapes.Within field.2)
    {building : List ShapeId} {cache : OutputCache}
    (sound : shapes.Sound names limit start building cache) :
    shapes.Alongside names limit start building
      (fun cache' => List.Forall₂ (SameField (shapes.Shows building cache')))
      (names.outputFields limit 0 references [] fields)
      (names.outputFields limit objects references building fields) cache := by
  match fields with
  | [] =>
    simp only [Names.outputFields]
    exact .pure sound .nil
  | (name, t) :: rest =>
    obtain ⟨ht, hrest⟩ := List.forall_mem_cons.mp hfields
    simp only [Names.outputFields]
    refine (outputIn_alongside closed objects references ht sound).bind ?_
    intro cache₁ skeleton u _ sound₁ hu
    refine (outputFields_alongside closed objects references hrest sound₁).bind ?_
    intro cache₂ skeletons made hle sound₂ hmade
    have hu' := hu.mono hle fun _ => sound₂.missing
    exact .pure sound₂ (.cons ⟨rfl, hu', rfl⟩ hmade)
termination_by (objects, references, sizeOf fields)

end

end Shapes

end Schemata
