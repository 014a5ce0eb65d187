import Mathlib
import Schemata.Proofs.Output.Alongside

/-!
# Queries for output types in any order

Which shapes are complete when an output type is asked for depends on the queries before, and with it
which shapes stand in the output type and which are referred to by name. Behind its references an
output type is the same tree whatever the order of the queries.
-/

namespace Schemata

/-! ## Trees behind references -/

/-- The output shape that a reference stands for. -/
def OutputCache.resolve (cache : OutputCache) : StaticType → StaticType
  | .reference name => (cache.named? name).getD (.reference name)
  | t => t

/-- An output of an object with its fields, down to a depth from which on it is reduced to its name.
References are followed. -/
def OutputCache.expand (cache : OutputCache) : (depth : Nat) → StaticType → StaticType
  | 0, .shape _ name _ _ => .reference name
  | 0, t => t
  | depth + 1, t =>
    match cache.resolve t with
    | .shape id name fields optional =>
      .shape id name (fields.map fun (key, field) => (key, field.graft (cache.expand depth))) optional
    | t => t

/-- The tree that a type stands for, down to a depth. -/
def OutputCache.unfold (cache : OutputCache) (depth : Nat) (t : StaticType) : StaticType :=
  t.graft (cache.expand depth)

/-- An output of an object is part of a type, or of the fields of an output that is. -/
inductive StaticType.Inside (m : StaticType) : StaticType → Prop
  | joint {t : StaticType} : m ∈ t.joints → Inside m t
  | field {t u : StaticType} {id : ShapeId} {name key : String}
      {fields : List (String × StaticType)} {optional : List String} :
    .shape id name fields optional ∈ t.joints → (key, u) ∈ fields → Inside m u → Inside m t

/-- A type is the complete output of the shape that it belongs to. -/
def OutputCache.Completes (cache : OutputCache) (m : StaticType) : Prop :=
  ∃ id name fields optional, m = .shape (.output id) name fields optional ∧ cache.lookup id = some m

/-- A type is a reference to the complete output of a shape. -/
def OutputCache.Refers (cache : OutputCache) (m : StaticType) (id : ShapeId) : Prop :=
  ∃ name t, m = .reference name ∧ cache.lookup id = some t ∧ cache.named? name = some t

/-! ## Queries -/

/-- A query for an output type. -/
inductive TypeQuery where
  /-- That of a type. -/
  | outputOf (t : StaticType)
  /-- That of the type at a path. -/
  | outputAt (t : StaticType) (path : PathArgument)

namespace TypeQuery

def type : TypeQuery → StaticType
  | outputOf t | outputAt t _ => t

/-- The type whose output type is asked for. -/
def target (names : Names) (limit : Nat) : TypeQuery → Except Failure StaticType
  | outputOf t => .ok t
  | outputAt t path => names.typeAt limit t path

def run (names : Names) (limit : Nat) (q : TypeQuery) : Outputting StaticType := do
  let t ← liftM (q.target names limit)
  names.outputOf limit t

/-- Queries in turn that all succeed, with their answers, and what is remembered after them. -/
inductive Answered (names : Names) (limit : Nat) : List (TypeQuery × StaticType) → OutputCache → Prop
  | nil : Answered names limit [] []
  | snoc {past : List (TypeQuery × StaticType)} {cache cache' : OutputCache} {q : TypeQuery}
      {u : StaticType} : Answered names limit past cache →
    (q.run names limit).exec cache = (.ok u, cache') → Answered names limit (past ++ [(q, u)]) cache'

end TypeQuery

namespace Shapes

variable {shapes : Shapes} {names : Names} {limit : Nat} {start cache cache' : OutputCache}

/-- The type whose output type is asked for is made of the same shapes. -/
theorem Closed.asked (closed : shapes.Closed names) {q : TypeQuery} {t : StaticType}
    (hq : shapes.Within q.type) (h : q.target names limit = .ok t) : shapes.Within t := by
  cases q with
  | outputOf t =>
    cases h
    exact hq
  | outputAt t path => exact closed.typeAt hq h

/-! ## What is remembered after queries -/

/-- A query that succeeds keeps what is remembered sound. -/
theorem run_alongside (closed : shapes.Closed names) {q : TypeQuery} {u : StaticType}
    (sound : shapes.Sound names limit start [] cache) (hq : shapes.Within q.type)
    (h : (q.run names limit).exec cache = (.ok u, cache')) :
    shapes.Sound names limit start [] cache' ∧ cache.Le cache' ∧ ∃ t skeleton,
      q.target names limit = .ok t ∧ shapes.HasSkeleton names limit t skeleton ∧
        shapes.Shows [] cache' skeleton u := by
  obtain ⟨t, mid, htarget, h⟩ := Stateful.exec_bind_eq_ok h
  cases found : q.target names limit with
  | error failure =>
    rw [found] at htarget
    cases htarget
  | ok t' =>
    rw [found] at htarget
    cases htarget
    obtain ⟨sound', hle, skeleton, hskeleton, shows⟩ := outputIn_alongside closed _ _
      (closed.asked hq found) sound u cache' h
    exact ⟨sound', hle, t, skeleton, rfl, hskeleton, shows⟩

/-- After queries in turn, what is remembered is sound, and it tells how the answers came about. -/
theorem answered_sound (closed : shapes.Closed names) {past : List (TypeQuery × StaticType)}
    (answered : TypeQuery.Answered names limit past cache)
    (within : ∀ a ∈ past, shapes.Within a.1.type) :
    shapes.Sound names limit [] [] cache ∧ ∀ a ∈ past, ∃ t skeleton,
      a.1.target names limit = .ok t ∧ shapes.HasSkeleton names limit t skeleton ∧
        shapes.Shows [] cache skeleton a.2 := by
  induction answered with
  | nil => exact ⟨.empty, fun _ h => absurd h List.not_mem_nil⟩
  | @snoc past cache cache' q u _ run ih =>
    obtain ⟨sound, before⟩ := ih fun a ha => within a (List.mem_append_left _ ha)
    have hq : shapes.Within q.type := within (q, u) (by simp)
    obtain ⟨sound', hle, last⟩ := run_alongside closed sound hq run
    refine ⟨sound', fun a ha => ?_⟩
    rcases List.mem_append.mp ha with ha | ha
    · obtain ⟨t, skeleton, htarget, hskeleton, shows⟩ := before a ha
      exact ⟨t, skeleton, htarget, hskeleton, shows.mono hle fun _ => sound'.missing⟩
    · obtain rfl := List.mem_singleton.mp ha
      exact last

/-- The name of a complete shape leads to it. -/
theorem Sound.named?_eq (closed : shapes.Closed names) {building : List ShapeId}
    (sound : shapes.Sound names limit start building cache) {id : ShapeId} {name : String}
    {fields : List (String × StaticType)} {t : StaticType}
    (hid : shapes.lookup id = some (name, fields)) (ht : cache.lookup id = some t) :
    cache.named? (name ++ "Output") = some t := by
  have isShape : t.isShape (name ++ "Output") = true := by
    obtain ⟨name', fields', made, hid', rfl⟩ := sound.named ht
    obtain ⟨rfl, _⟩ := Prod.mk.inj (Option.some.inj (hid.symm.trans hid'))
    simp [StaticType.isShape, Names.shapeOf]
  unfold OutputCache.named?
  cases found : cache.find? fun entry => entry.2.isShape (name ++ "Output") with
  | none =>
    have := List.find?_eq_none.mp found _ (mem_of_lookup ht)
    exact absurd isShape this
  | some entry =>
    obtain ⟨id', t'⟩ := entry
    have hname := List.find?_some found
    have ht' := sound.found (List.mem_of_find?_eq_some found)
    obtain ⟨name', fields', made, hid', rfl⟩ := sound.named ht'
    have same := closed.beq_names hid' hid
    rw [show (name' ++ "Output" == name ++ "Output") = true from hname] at same
    obtain rfl := beq_iff_eq.mp same.symm
    exact ht'.symm.trans ht

/-- What stands in the place of a stub when nothing is being built is a complete shape or its name. -/
theorem Stands.exists_complete {m x : StaticType} (h : shapes.Stands start [] cache m x) :
    ∃ id name fields t, m = stub id name ∧ shapes.lookup id = some (name, fields) ∧
      cache.lookup id = some t ∧
      (x = t ∨ x = .reference (name ++ "Output") ∧ start.lookup id = none) := by
  cases h with
  | complete hid ht => exact ⟨_, _, _, _, rfl, hid, ht, .inl rfl⟩
  | named hid absent later =>
    rcases later with building | complete
    · exact absurd building List.not_mem_nil
    · obtain ⟨t, ht⟩ := Option.isSome_iff_exists.mp complete
      exact ⟨_, _, _, t, rfl, hid, ht, .inr ⟨rfl, absent⟩⟩

theorem stub_inj {id id' : ShapeId} {name name' : String} (h : stub id name = stub id' name') :
    id = id' := by
  injection h with same
  exact ShapeId.output.inj same

theorem Stands.isJoint (sound : shapes.Sound names limit start [] cache) {m x : StaticType}
    (h : shapes.Stands start [] cache m x) : x.isJoint = true := by
  obtain ⟨id, name, fields, t, _, _, ht, rfl | ⟨rfl, _⟩⟩ := h.exists_complete
  · obtain ⟨_, _, _, _, rfl⟩ := sound.named ht
    rfl
  · rfl

/-! ## Equal trees -/

/-- What stands in the place of stubs is unfolded where it stands. -/
theorem unfold_graft (sound : shapes.Sound names limit start [] cache) (depth : Nat)
    {skeleton : StaticType} {f : StaticType → StaticType}
    (hf : ∀ m ∈ skeleton.joints, shapes.Stands start [] cache m (f m)) :
    cache.unfold depth (skeleton.graft f) = skeleton.graft fun m => cache.expand depth (f m) := by
  rw [OutputCache.unfold, StaticType.graft_graft]
  exact StaticType.graft_congr fun m hm => StaticType.graft_of_isJoint ((hf m hm).isJoint sound)

/-- Types that fill the same skeleton stand for the same tree if what fills it does. -/
theorem unfold_eq_of_expand (sound : shapes.Sound names limit [] [] cache)
    (sound' : shapes.Sound names limit [] [] cache') (depth : Nat)
    (same : ∀ m x x', shapes.Stands [] [] cache m x → shapes.Stands [] [] cache' m x' →
      cache.expand depth x = cache'.expand depth x') {skeleton t t' : StaticType}
    (ht : Fills (shapes.Stands [] [] cache) skeleton t)
    (ht' : Fills (shapes.Stands [] [] cache') skeleton t') :
    cache.unfold depth t = cache'.unfold depth t' := by
  obtain ⟨f, rfl, hf⟩ := ht
  obtain ⟨f', rfl, hf'⟩ := ht'
  rw [unfold_graft sound depth hf, unfold_graft sound' depth hf']
  exact StaticType.graft_congr fun m hm => same m _ _ (hf m hm) (hf' m hm)

/-- Fields with the same skeletons have the same names and marks, and trees that are equal if those in
the place of stubs are. -/
theorem unfold_fields {R S : StaticType → StaticType → Prop} {e e' : StaticType → StaticType}
    {skeletons made made' : List (String × StaticType × Bool)}
    (h : List.Forall₂ (SameField R) skeletons made) (h' : List.Forall₂ (SameField S) skeletons made')
    (same : ∀ skeleton t t', R skeleton t → S skeleton t' → e t = e' t') :
    (made.map fun (key, t, _) => (key, e t)) = (made'.map fun (key, t, _) => (key, e' t)) ∧
      (made.filter (·.2.2)).map (·.1) = (made'.filter (·.2.2)).map (·.1) := by
  induction h generalizing made' with
  | nil =>
    cases h'
    exact ⟨rfl, rfl⟩
  | @cons skeleton first _ _ hfirst _ ih =>
    obtain _ | @⟨_, first', _, _, hfirst', hrest'⟩ := h'
    obtain ⟨fields, optional⟩ := ih hrest'
    obtain ⟨key, t, mark⟩ := first
    obtain ⟨key', t', mark'⟩ := first'
    obtain rfl : key = key' := hfirst.1.symm.trans hfirst'.1
    obtain rfl : mark = mark' := hfirst.2.2.symm.trans hfirst'.2.2
    have tree : e t = e' t' := same _ _ _ hfirst.2.1 hfirst'.2.1
    constructor
    · exact congrArg₂ List.cons (congrArg (Prod.mk key) tree) fields
    · cases mark with
      | true => exact congrArg (key :: ·) optional
      | false => exact optional

/-- The fields of an object have one skeleton each. -/
theorem HasFieldSkeletons.unique {id : ShapeId} {fields : List (String × StaticType)}
    {skeletons skeletons' : List (String × StaticType × Bool)}
    (h : shapes.HasFieldSkeletons names limit id fields skeletons)
    (h' : shapes.HasFieldSkeletons names limit id fields skeletons') : skeletons = skeletons' := by
  obtain ⟨looked, hlooked, run⟩ := h
  obtain ⟨looked', hlooked', run'⟩ := h'
  obtain ⟨rfl, _⟩ := Prod.mk.inj (hlooked.symm.trans hlooked')
  exact Except.ok.inj (Prod.mk.inj (run.symm.trans run')).1

/-- What stands in the place of a stub is a shape whose fields fill their skeletons. -/
theorem Stands.expand (closed : shapes.Closed names) (sound : shapes.Sound names limit [] [] cache)
    {m x : StaticType} (h : shapes.Stands [] [] cache m x) :
    ∃ id name fields skeletons made, m = stub id name ∧ shapes.lookup id = some (name, fields) ∧
      shapes.HasFieldSkeletons names limit id fields skeletons ∧
      List.Forall₂ (SameField (Fills (shapes.Stands [] [] cache))) skeletons made ∧
      cache.expand 0 x = .reference (name ++ "Output") ∧
      ∀ depth, cache.expand (depth + 1) x = .shape (.output id) (name ++ "Output")
        (made.map fun (key, t, _) => (key, cache.unfold depth t)) ((made.filter (·.2.2)).map (·.1)) := by
  obtain ⟨id, name, fields, t, rfl, hid, ht, hx⟩ := h.exists_complete
  have resolved : cache.resolve x = t := by
    rcases hx with rfl | ⟨rfl, _⟩
    · obtain ⟨_, _, _, _, rfl⟩ := sound.named ht
      rfl
    · rw [OutputCache.resolve, sound.named?_eq closed hid ht]
      rfl
  -- nothing was complete at the start, so this shape was completed by a query
  obtain start | completed := sound.completed ht
  · cases start
  obtain @⟨name', fields', skeletons, made, hid', hskeletons, hmade⟩ := completed
  obtain ⟨rfl, rfl⟩ := Prod.mk.inj (Option.some.inj (hid.symm.trans hid'))
  refine ⟨id, name, fields, skeletons, made, rfl, hid, hskeletons, hmade, ?_, fun depth => ?_⟩
  · rcases hx with rfl | ⟨rfl, _⟩ <;> rfl
  · rw [OutputCache.expand, resolved, Names.shapeOf]
    simp only [List.map_map]
    rfl

/-- In the place of one stub stands the same tree after any queries. -/
theorem expand_eq (closed : shapes.Closed names) (sound : shapes.Sound names limit [] [] cache)
    (sound' : shapes.Sound names limit [] [] cache') (depth : Nat) {m x x' : StaticType}
    (h : shapes.Stands [] [] cache m x) (h' : shapes.Stands [] [] cache' m x') :
    cache.expand depth x = cache'.expand depth x' := by
  induction depth generalizing m x x' with
  | zero =>
    obtain ⟨id, name, _, _, _, rfl, hid, _, _, zero, _⟩ := h.expand closed sound
    obtain ⟨id', name', _, _, _, same, hid', _, _, zero', _⟩ := h'.expand closed sound'
    obtain rfl := stub_inj same
    obtain ⟨rfl, _⟩ := Prod.mk.inj (Option.some.inj (hid.symm.trans hid'))
    rw [zero, zero']
  | succ depth ih =>
    obtain ⟨id, name, fields, _, _, rfl, hid, run, hmade, _, succ⟩ := h.expand closed sound
    obtain ⟨id', name', fields', _, _, same, hid', run', hmade', _, succ'⟩ :=
      h'.expand closed sound'
    obtain rfl := stub_inj same
    obtain ⟨rfl, rfl⟩ := Prod.mk.inj (Option.some.inj (hid.symm.trans hid'))
    -- both shapes were built from the same skeletons, whatever was complete at the time
    obtain rfl := run.unique run'
    obtain ⟨fields, optional⟩ := unfold_fields hmade hmade' fun _ _ _ ht ht' =>
      unfold_eq_of_expand sound sound' depth (fun _ _ _ => ih) ht ht'
    rw [succ, succ', fields, optional]

/-! ## References -/

/-- What stands in the place of a stub is complete, or refers to what is. -/
theorem Stands.completes_or_refers (closed : shapes.Closed names)
    (sound : shapes.Sound names limit start [] cache) {m x : StaticType}
    (h : shapes.Stands start [] cache m x) :
    cache.Completes x ∨ ∃ id, start.lookup id = none ∧ cache.Refers x id := by
  obtain ⟨id, name, fields, t, rfl, hid, ht, rfl | ⟨rfl, absent⟩⟩ := h.exists_complete
  · obtain ⟨_, _, _, _, rfl⟩ := sound.named ht
    exact .inl ⟨_, _, _, _, rfl, ht⟩
  · exact .inr ⟨id, absent, _, t, rfl, ht, sound.named?_eq closed hid ht⟩

/-- The fields of a shape that was completed after the start have nothing else in the place of
stubs. -/
theorem Sound.fields_complete (closed : shapes.Closed names)
    (sound : shapes.Sound names limit start [] cache) {id sid : ShapeId} {name key : String}
    {fields : List (String × StaticType)} {optional : List String} {u m : StaticType}
    (new : start.lookup id = none) (h : cache.lookup id = some (.shape sid name fields optional))
    (hu : (key, u) ∈ fields) (hm : m ∈ u.joints) :
    cache.Completes m ∨ ∃ id, start.lookup id = none ∧ cache.Refers m id := by
  obtain old | completed := sound.completed h
  · rw [new] at old
    cases old
  generalize ht : StaticType.shape sid name fields optional = t at completed
  obtain @⟨name', _, skeletons, made, _, _, hmade⟩ := completed
  obtain ⟨rfl, rfl, rfl, rfl⟩ := StaticType.shape.inj ht
  obtain ⟨field, hfield, heq⟩ := List.mem_map.mp hu
  obtain ⟨skeleton, _, _, hfills, _⟩ := exists_left_of_forall₂ hmade hfield
  cases heq
  obtain ⟨f, filled, hf⟩ := hfills
  rw [filled, StaticType.joints_graft, List.mem_flatMap] at hm
  obtain ⟨stub, hstub, hm⟩ := hm
  have stands := hf stub hstub
  rw [StaticType.joints_of_isJoint (stands.isJoint sound), List.mem_singleton] at hm
  rw [hm]
  exact stands.completes_or_refers closed sound

/-- When nothing is being built, an output type has complete outputs in the place of stubs. -/
theorem Shows.completes (sound : shapes.Sound names limit start [] cache)
    {skeleton t m : StaticType} (h : shapes.Shows [] cache skeleton t) (hm : m ∈ t.joints) :
    cache.Completes m := by
  rw [h.shown, StaticType.joints_graft, List.mem_flatMap] at hm
  obtain ⟨stub, hstub, hm⟩ := hm
  obtain ⟨hid, building | complete⟩ := h.reached hstub
  · exact absurd building List.not_mem_nil
  · obtain ⟨v, hv⟩ := Option.isSome_iff_exists.mp complete
    obtain ⟨_, _, _, _, rfl⟩ := sound.named hv
    rw [shown_complete hv, StaticType.joints_of_isJoint rfl, List.mem_singleton] at hm
    exact ⟨_, _, _, _, hm, hm ▸ hv⟩

/-- Behind complete outputs and references to them there are no others. -/
theorem Sound.inside (closed : shapes.Closed names) (sound : shapes.Sound names limit [] [] cache)
    {t m : StaticType} (h : ∀ m ∈ t.joints, cache.Completes m ∨ ∃ id, cache.Refers m id)
    (inside : StaticType.Inside m t) : cache.Completes m ∨ ∃ id, cache.Refers m id := by
  induction inside with
  | joint hm => exact h _ hm
  | @field t u id name key fields optional hm hu _ ih =>
    -- a joint with fields is no reference
    refine ih fun m' hm' => ?_
    obtain ⟨id', _, _, _, _, complete⟩ | ⟨_, _, _, isReference, _⟩ := h _ hm
    · exact (sound.fields_complete closed rfl complete hu hm').imp_right fun ⟨id, _, refers⟩ =>
        ⟨id, refers⟩
    · cases isReference

theorem HasSkeleton.unique {t skeleton skeleton' : StaticType}
    (h : shapes.HasSkeleton names limit t skeleton)
    (h' : shapes.HasSkeleton names limit t skeleton') : skeleton = skeleton' :=
  Except.ok.inj (Prod.mk.inj (h.symm.trans h')).1

/-! ## Any order -/

/-- Types made of shapes with different names are asked for their output types in some order, and no
query fails. Then every output of an object inside a complete one is complete itself, and every
reference inside leads to a complete one. A later query keeps all complete outputs. Its answer has no
references outside of complete outputs, and the outputs that it completes refer to no shape that was
complete before. Wherever it comes upon such a shape, it takes the output that there is. Queries for
one type in two orders have answers that stand for the same tree. -/
theorem outputs_in_any_order (closed : shapes.Closed names)
    {past : List (TypeQuery × StaticType)} {cache : OutputCache}
    (answered : TypeQuery.Answered names limit past cache)
    (within : ∀ a ∈ past, shapes.Within a.1.type) :
    (∀ id t m, cache.lookup id = some t → StaticType.Inside m t →
      cache.Completes m ∨ ∃ id', cache.Refers m id') ∧
    (∀ (q : TypeQuery) u cache', shapes.Within q.type → (q.run names limit).exec cache = (.ok u, cache') →
      cache.Le cache' ∧
      (∀ m ∈ u.joints, cache'.Completes m) ∧
      ∀ id sid name fields optional key field m, cache.lookup id = none →
        cache'.lookup id = some (.shape sid name fields optional) → (key, field) ∈ fields →
        m ∈ field.joints →
        cache'.Completes m ∨ ∃ id', cache.lookup id' = none ∧ cache'.Refers m id') ∧
    (∀ id t, cache.lookup id = some t → ∀ args name fields optional,
      names.arg (.schema .object args) 0 = .shape id name fields optional →
      ∀ objects references building (cache' : OutputCache), cache.Le cache' →
      (names.outputIn limit objects references building (.schema .object args)).exec cache'
        = (.ok t, cache')) ∧
    ∀ past' cache', TypeQuery.Answered names limit past' cache' →
      (∀ a ∈ past', shapes.Within a.1.type) → ∀ a ∈ past, ∀ a' ∈ past',
      a.1.target names limit = a'.1.target names limit →
      ∀ depth, cache.unfold depth a.2 = cache'.unfold depth a'.2 := by
  obtain ⟨sound, answers⟩ := answered_sound closed answered within
  refine ⟨?_, ?_, ?_, ?_⟩
  · intro id t m ht inside
    refine sound.inside closed (fun m' hm' => ?_) inside
    obtain ⟨_, _, _, _, rfl⟩ := sound.named ht
    rw [StaticType.joints_of_isJoint rfl, List.mem_singleton] at hm'
    exact .inl ⟨id, _, _, _, hm', hm' ▸ ht⟩
  · intro q u cache' hq run
    -- from here on, what the earlier queries completed counts as complete at the start
    obtain ⟨sound', hle, t, skeleton, _, _, shows⟩ := run_alongside closed sound.restart hq run
    refine ⟨hle, fun m hm => ?_, ?_⟩
    · exact shows.completes sound' hm
    · intro id sid name fields optional key field m new complete hfield hm
      exact sound'.fields_complete closed new complete hfield hm
  · intro id t ht args name fields optional shape objects references building cache' hle
    exact names.exec_object_complete shape (hle id t ht)
  · intro past' cache' answered' within' a ha a' ha' same depth
    obtain ⟨sound', answers'⟩ := answered_sound closed answered' within'
    obtain ⟨t, skeleton, htarget, hskeleton, shows⟩ := answers a ha
    obtain ⟨t', skeleton', htarget', hskeleton', shows'⟩ := answers' a' ha'
    rw [htarget, htarget'] at same
    obtain rfl := Except.ok.inj same
    obtain rfl := hskeleton.unique hskeleton'
    exact unfold_eq_of_expand sound sound' depth
      (fun _ _ _ => expand_eq closed sound sound' depth) (shows.fills sound.grown)
      (shows'.fills sound'.grown)

/-! ### Authors and books -/

/-- The fields of an author, who has books. -/
def authorFields : List (String × StaticType) :=
  [("books", .schema .array (some [.schema .lazy (some [.reference "Book"])]))]

/-- The fields of a book, which may have an author. -/
def bookFields : List (String × StaticType) :=
  [("author", .schema .nullable (some [.schema .lazy (some [.reference "Author"])])),
    ("title", .schema .string none)]

def authorType : StaticType :=
  .schema .object (some [.shape (.declared 0 0) "Author" authorFields []])

def bookType : StaticType :=
  .schema .object (some [.shape (.declared 0 1) "Book" bookFields []])

/-- The names that authors and books use for each other. -/
def authorNames : Names :=
  { Names.empty with declared := [(0, "Author", authorType), (0, "Book", bookType)] }

def authorShapes : Shapes :=
  [(.declared 0 0, "Author", authorFields), (.declared 0 1, "Book", bookFields)]

/-- The output of an author with some type for the books. -/
def authorOutput (book : StaticType) : StaticType :=
  .shape (.output (.declared 0 0)) "AuthorOutput" [("books", .list book)] []

/-- The output of a book with some type for its author. -/
def bookOutput (author : StaticType) : StaticType :=
  .shape (.output (.declared 0 1)) "BookOutput"
    [("author", .union [author, .none]), ("title", .plain .str)] []

theorem author_within : authorShapes.Within authorType :=
  .node (by decide) (List.forall_mem_singleton.mpr (.shape rfl))

theorem book_within : authorShapes.Within bookType :=
  .node (by decide) (List.forall_mem_singleton.mpr (.shape rfl))

theorem authorShapes_closed : authorShapes.Closed authorNames where
  distinct h h' := by
    have hm := mem_of_lookup h
    have hm' := mem_of_lookup h'
    simp only [authorShapes, List.mem_cons, List.not_mem_nil, or_false, Prod.mk.injEq] at hm hm'
    rcases hm with ⟨rfl, rfl, _⟩ | ⟨rfl, rfl, _⟩ <;> rcases hm' with ⟨rfl, h, _⟩ | ⟨rfl, h, _⟩ <;>
      first | rfl | exact absurd h (by decide)
  target h := nomatch h
  field {id name key fields t} h hmem := by
    have lazily {t : StaticType} (ht : authorShapes.Within t) :
        authorShapes.Within (.schema .lazy (some [t])) :=
      .node (by decide) (List.forall_mem_singleton.mpr ht)
    have hm := mem_of_lookup h
    simp only [authorShapes, List.mem_cons, List.not_mem_nil, or_false, Prod.mk.injEq] at hm
    rcases hm with ⟨rfl, rfl, rfl⟩ | ⟨rfl, rfl, rfl⟩
    · simp only [authorFields, List.mem_cons, List.not_mem_nil, or_false, Prod.mk.injEq] at hmem
      obtain ⟨rfl, rfl⟩ := hmem
      have looked : authorNames.evaluate (.declared 0 0)
          (.schema .array (some [.schema .lazy (some [.reference "Book"])]))
          = .schema .array (some [.schema .lazy (some [bookType])]) := by cbv
      rw [looked]
      exact .node (by decide) (List.forall_mem_singleton.mpr (lazily book_within))
    · simp only [bookFields, List.mem_cons, List.not_mem_nil, or_false, Prod.mk.injEq] at hmem
      rcases hmem with ⟨rfl, rfl⟩ | ⟨rfl, rfl⟩
      · have looked : authorNames.evaluate (.declared 0 1)
            (.schema .nullable (some [.schema .lazy (some [.reference "Author"])]))
            = .schema .nullable (some [.schema .lazy (some [authorType])]) := by cbv
        rw [looked]
        exact .node (by decide) (List.forall_mem_singleton.mpr (lazily author_within))
      · have looked : authorNames.evaluate (.declared 0 1) (.schema .string none)
            = .schema .string none := by cbv
        rw [looked]
        exact .bare

/-- The queries for the output of an author and of the books in it. -/
def askAuthor : TypeQuery := .outputOf authorType

def askBooks : TypeQuery := .outputAt authorType (.text "books")

/-- After the author has been asked for first. -/
def authorFirst : OutputCache :=
  [(.declared 0 0, authorOutput (bookOutput (.reference "AuthorOutput"))),
    (.declared 0 1, bookOutput (.reference "AuthorOutput"))]

/-- After the books have been asked for first. -/
def booksFirst : OutputCache :=
  [(.declared 0 1, bookOutput (authorOutput (.reference "BookOutput"))),
    (.declared 0 0, authorOutput (.reference "BookOutput"))]

theorem answered_authorFirst : TypeQuery.Answered authorNames 64
    [(askAuthor, authorOutput (bookOutput (.reference "AuthorOutput"))),
      (askBooks, .list (bookOutput (.reference "AuthorOutput")))] authorFirst := by
  have first : (askAuthor.run authorNames 64).exec []
      = (.ok (authorOutput (bookOutput (.reference "AuthorOutput"))), authorFirst) := by cbv
  have second : (askBooks.run authorNames 64).exec authorFirst
      = (.ok (.list (bookOutput (.reference "AuthorOutput"))), authorFirst) := by cbv
  exact .snoc (.snoc .nil first) second

theorem answered_booksFirst : TypeQuery.Answered authorNames 64
    [(askBooks, .list (bookOutput (authorOutput (.reference "BookOutput")))),
      (askAuthor, authorOutput (.reference "BookOutput"))] booksFirst := by
  have first : (askBooks.run authorNames 64).exec []
      = (.ok (.list (bookOutput (authorOutput (.reference "BookOutput")))), booksFirst) := by cbv
  have second : (askAuthor.run authorNames 64).exec booksFirst
      = (.ok (authorOutput (.reference "BookOutput")), booksFirst) := by cbv
  exact .snoc (.snoc .nil first) second

/-- An author and the books in it are asked for in both orders. What is asked for first contains the
other, and the other refers to it by name. The trees behind the names are the same. -/
theorem author_and_books_in_any_order :
    authorShapes.Closed authorNames ∧ authorShapes.Within authorType ∧
    TypeQuery.Answered authorNames 64
      [(askAuthor, authorOutput (bookOutput (.reference "AuthorOutput"))),
        (askBooks, .list (bookOutput (.reference "AuthorOutput")))] authorFirst ∧
    TypeQuery.Answered authorNames 64
      [(askBooks, .list (bookOutput (authorOutput (.reference "BookOutput")))),
        (askAuthor, authorOutput (.reference "BookOutput"))] booksFirst ∧
    ∀ depth,
      authorFirst.unfold depth (authorOutput (bookOutput (.reference "AuthorOutput")))
        = booksFirst.unfold depth (authorOutput (.reference "BookOutput")) ∧
      authorFirst.unfold depth (.list (bookOutput (.reference "AuthorOutput")))
        = booksFirst.unfold depth (.list (bookOutput (authorOutput (.reference "BookOutput")))) := by
  have within {a b : StaticType} :
      ∀ q ∈ [(askAuthor, a), (askBooks, b)], authorShapes.Within q.1.type := by
    simp [askAuthor, askBooks, TypeQuery.type, author_within]
  have within' {a b : StaticType} :
      ∀ q ∈ [(askBooks, a), (askAuthor, b)], authorShapes.Within q.1.type := by
    simp [askAuthor, askBooks, TypeQuery.type, author_within]
  obtain ⟨_, _, _, same⟩ :=
    outputs_in_any_order authorShapes_closed answered_authorFirst within
  have trees := same _ _ answered_booksFirst within'
  refine ⟨authorShapes_closed, author_within, answered_authorFirst, answered_booksFirst,
    fun depth => ⟨?_, ?_⟩⟩
  · exact trees _ List.mem_cons_self _ (List.mem_cons_of_mem _ List.mem_cons_self) rfl depth
  · exact trees _ (List.mem_cons_of_mem _ List.mem_cons_self) _ List.mem_cons_self rfl depth

end Shapes

end Schemata
