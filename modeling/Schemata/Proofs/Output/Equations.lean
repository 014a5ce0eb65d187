import Schemata.Proofs.Derivation.Equations
import Schemata.Proofs.Mirror.Fields
import Schemata.Proofs.Output.Yields

/-!
# Equations of output types

The computation of output types, told by the schema classes: leaves, schemas whose parameters are
computed in order, and objects whose shape is complete, being built, or new.
-/

namespace Schemata

theorem StaticType.exists_of_isReference {t : StaticType} (h : t.isReference = true) :
    ∃ name, t = .reference name := by
  cases t <;> cases h
  exact ⟨_, rfl⟩

namespace Names

variable (names : Names) {limit objects references : Nat} {building : List ShapeId}

@[simp] theorem outputIn_leaf (l : Leaf) :
    names.outputIn limit objects references building l.staticType = pure l.outputType := by
  cases l <;> rw [Leaf.staticType, outputIn] <;> first | rfl | simp [Leaf.schemaClass]

@[simp] theorem exec_outputOf_never (cache : OutputCache) :
    (names.outputOf limit .never).exec cache = (.ok .never, cache) := by
  rw [outputOf, outputIn]
  · rfl
  all_goals simp

/-! ## Parameters -/

variable {t u : StaticType}

@[simp] theorem outputOfArg_zero (ht : t.isReference = false) (rest : List StaticType) :
    names.outputOfArg limit objects references building (some (t :: rest)) 0
      = names.outputIn limit objects references building t := by
  cases t with
  | reference n => cases ht
  | _ => rw [outputOfArg]; simp

@[simp] theorem outputOfArg_one (hu : u.isReference = false) :
    names.outputOfArg limit objects references building (some [t, u]) 1
      = names.outputIn limit objects references building u := by
  rw [outputOfArg, outputOfArg_zero names hu]

/-- A reference is followed to the type that was derived for its name. -/
theorem outputOfArg_reference (n : String) (ht : names.derived.lookup n = some t) :
    names.outputOfArg limit objects (references + 1) building (some [.reference n]) 0
      = names.outputIn limit objects references building t := by
  rw [outputOfArg, ht]
  rfl

theorem outputOfArg_exhausted (n : String) :
    names.outputOfArg limit objects 0 building (some [.reference n]) 0 = throw .endlessType := by
  rw [outputOfArg]

/-! ## Schemas with children -/

@[simp] theorem outputIn_array (ht : t.isReference = false) :
    names.outputIn limit objects references building (.schema .array (some [t])) = do
      return .list (← names.outputIn limit objects references building t) := by
  simp [outputIn, ht]

@[simp] theorem outputIn_record (ht : t.isReference = false) (hu : u.isReference = false) :
    names.outputIn limit objects references building (.schema .record (some [t, u])) = do
      let key ← names.outputIn limit objects references building t
      let value ← names.outputIn limit objects references building u
      return .dict key value := by
  simp [outputIn, ht, hu]

@[simp] theorem outputIn_tuple (ts : List StaticType) :
    names.outputIn limit objects references building (.schema .tuple (some ts)) = do
      return .tuple (← names.outputsIn limit objects references building ts) := by
  rw [outputIn]

@[simp] theorem outputIn_union_nil :
    names.outputIn limit objects references building (.schema .union (some [])) = pure .never := by
  rw [outputIn]
  rfl

@[simp] theorem outputIn_union_cons (ts : List StaticType) :
    names.outputIn limit objects references building (.schema .union (some (t :: ts)))
      = names.outputsIn limit objects references building (t :: ts) >>=
          fun members => StaticType.unionOf members := by
  rw [outputIn]
  rfl

/-- Wrappers that give nothing in the place of some values allow it in the output type. -/
@[simp] theorem outputIn_orNone {w : Wrapper} (hw : w.allowsNone = true) (ht : t.isReference = false) :
    names.outputIn limit objects references building (.schema w.schemaClass (some [t]))
      = names.outputIn limit objects references building t >>=
          fun inner => StaticType.unionOf [inner, .none] := by
  cases w <;> cases hw <;> rw [Wrapper.schemaClass, outputIn, outputOfArg_zero names ht]

@[simp] theorem outputIn_wrapper {w : Wrapper} (hw : w.allowsNone = false) (ht : t.isReference = false) :
    names.outputIn limit objects references building (.schema w.schemaClass (some [t]))
      = names.outputIn limit objects references building t := by
  cases w <;> cases hw <;> rw [Wrapper.schemaClass, outputIn, outputOfArg_zero names ht]

@[simp] theorem outputIn_pipe (hu : u.isReference = false) :
    names.outputIn limit objects references building (.schema .pipe (some [t, u]))
      = names.outputIn limit objects references building u := by
  simp [outputIn, hu]

@[simp] theorem outputIn_lazy (args : Option (List StaticType)) :
    names.outputIn limit objects references building (.schema .lazy args)
      = names.outputOfArg limit objects references building args 0 := by
  rw [outputIn]

/-! ## Objects -/

variable {sid : ShapeId} {name : String} {fields : List (String × StaticType)}
  {optional : List String} {cache : OutputCache}

/-- The output shape that the outputs of the fields give. -/
def shapeOf (sid : ShapeId) (name : String) (made : List (String × StaticType × Bool)) : StaticType :=
  .shape (.output sid) (name ++ "Output") (made.map fun (name, t, _) => (name, t))
    ((made.filter (·.2.2)).map (·.1))

section

variable {args : Option (List StaticType)}
  (shape : names.arg (.schema .object args) 0 = .shape sid name fields optional)

include shape

theorem exec_object_complete {output : StaticType} (h : cache.lookup sid = some output) :
    (names.outputIn limit objects references building (.schema .object args)).exec cache
      = (.ok output, cache) := by
  simp [outputIn, outputOfShape, shape, h]

theorem exec_object_building (h : cache.lookup sid = none) (hsid : building.contains sid = true) :
    (names.outputIn limit objects references building (.schema .object args)).exec cache
      = (.ok (.reference (name ++ "Output")), cache) := by
  simp [outputIn, outputOfShape, shape, h, -List.contains_eq_mem, hsid]

theorem exec_object_exhausted (h : cache.lookup sid = none) (hsid : building.contains sid = false) :
    (names.outputIn limit 0 references building (.schema .object args)).exec cache
      = (.error .endlessType, cache) := by
  simp [outputIn, outputOfShape, shape, h, -List.contains_eq_mem, hsid]

theorem exec_object_fault (h : cache.lookup sid = none) (hsid : building.contains sid = false)
    {looked : List (String × StaticType)} {failure : Failure}
    (hlooked : names.fieldsOf sid fields = (looked, some failure)) :
    (names.outputIn limit (objects + 1) references building (.schema .object args)).exec cache
      = (do
          let _ ← names.outputFields limit objects (names.derived.length + 1) (sid :: building) looked
          throw failure : Outputting StaticType).exec cache := by
  simp [outputIn, outputOfShape, shape, h, -List.contains_eq_mem, hsid, hlooked]

theorem exec_object_new (h : cache.lookup sid = none) (hsid : building.contains sid = false)
    {looked : List (String × StaticType)} (hlooked : names.fieldsOf sid fields = (looked, none)) :
    (names.outputIn limit (objects + 1) references building (.schema .object args)).exec cache
      = (do
          let made ← names.outputFields limit objects (names.derived.length + 1) (sid :: building)
            looked
          modify fun cache => (sid, shapeOf sid name made) :: cache
          return shapeOf sid name made : Outputting StaticType).exec cache := by
  simp [outputIn, outputOfShape, shape, h, -List.contains_eq_mem, hsid, hlooked, shapeOf]

end

end Names

end Schemata
