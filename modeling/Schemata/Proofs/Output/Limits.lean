import Mathlib.Logic.Relation
import Schemata.Proofs.Output.Equations

/-!
# Output types under different limits

The limit matters for an output type only where it decides which fields of shapes may be absent. Two
limits that decide alike on the fields that are met give the same output type, and the same shapes
are complete afterwards.
-/

namespace Schemata

namespace Names

variable (names : Names)

/-- What is met on the way to the output type of a type. -/
inductive Meets : StaticType → StaticType → Prop
  | arg {c : SchemaClass} {args : List StaticType} {t : StaticType} : t ∈ args →
    Meets (.schema c (some args)) t
  | target {c : SchemaClass} {args : List StaticType} {name : String} : .reference name ∈ args →
    Meets (.schema c (some args)) ((names.derived.lookup name).getD .never)
  | field {args : Option (List StaticType)} {id : ShapeId} {name key : String} {t : StaticType}
      {fields : List (String × StaticType)} {optional : List String} :
    names.arg (.schema .object args) 0 = .shape id name fields optional → (key, t) ∈ fields →
    Meets (.schema .object args) (names.evaluate id t)

/-- Two limits decide alike on the fields of all shapes that are met. -/
def DecideAlike (limit limit' : Nat) (t : StaticType) : Prop :=
  ∀ args id name fields optional key u,
    Relation.ReflTransGen names.Meets t (.schema .object args) →
    names.arg (.schema .object args) 0 = .shape id name fields optional → (key, u) ∈ fields →
    (names.absence limit (names.evaluate id u) = some .optional ↔
      names.absence limit' (names.evaluate id u) = some .optional)

variable {names} {limit limit' objects references : Nat} {building : List ShapeId}

theorem DecideAlike.meets {t u : StaticType} (h : names.DecideAlike limit limit' t)
    (meets : names.Meets t u) : names.DecideAlike limit limit' u :=
  fun args id name fields optional key v hmeets =>
    h args id name fields optional key v (.head meets hmeets)

/-- Two limits decide alike behind all parameters. -/
structure ParametersAlike (names : Names) (limit limit' : Nat) (args : List StaticType) : Prop where
  arg {t : StaticType} : t ∈ args → names.DecideAlike limit limit' t
  target {name : String} : .reference name ∈ args →
    names.DecideAlike limit limit' ((names.derived.lookup name).getD .never)

theorem DecideAlike.parameters {c : SchemaClass} {args : List StaticType}
    (h : names.DecideAlike limit limit' (.schema c (some args))) :
    names.ParametersAlike limit limit' args where
  arg ht := h.meets (.arg ht)
  target hname := h.meets (.target hname)

theorem ParametersAlike.tail {t : StaticType} {rest : List StaticType}
    (h : names.ParametersAlike limit limit' (t :: rest)) :
    names.ParametersAlike limit limit' rest where
  arg ht := h.arg (List.mem_cons_of_mem _ ht)
  target hname := h.target (List.mem_cons_of_mem _ hname)

mutual

/-- Limits that decide alike on what is met give the same output type. -/
theorem outputIn_alike (objects references : Nat) (building : List ShapeId) (t : StaticType)
    (h : names.DecideAlike limit limit' t) :
    names.outputIn limit objects references building t
      = names.outputIn limit' objects references building t := by
  cases t with
  | schema c args =>
    have arg (position : Nat) : names.outputOfArg limit objects references building args position
        = names.outputOfArg limit' objects references building args position := by
      cases args with
      | none => simp only [outputOfArg]
      | some args => exact outputOfArg_alike objects references building args position h.parameters
    cases c with
    | object => simp only [outputIn, outputOfShape_alike objects references building args h]
    | array | record | optional | nullable | default | readonly | lazy | pipe =>
      simp only [outputIn, arg]
    | tuple =>
      cases args with
      | none => simp only [outputIn]
      | some args =>
        simp only [outputIn, outputsIn_alike objects references building args h.parameters]
    | union =>
      cases args with
      | none => simp only [outputIn]
      | some args =>
        simp only [outputIn, outputsIn_alike objects references building args h.parameters]
    | _ =>
      cases args with
      | none => simp only [outputIn]
      | some args => cases args <;> simp only [outputIn]
  | _ => simp only [outputIn]
termination_by (objects, references, sizeOf t)

theorem outputsIn_alike (objects references : Nat) (building : List ShapeId)
    (ts : List StaticType) (h : names.ParametersAlike limit limit' ts) :
    names.outputsIn limit objects references building ts
      = names.outputsIn limit' objects references building ts := by
  cases ts with
  | nil => simp only [outputsIn]
  | cons t rest =>
    simp only [outputsIn, outputIn_alike objects references building t (h.arg List.mem_cons_self),
      outputsIn_alike objects references building rest h.tail]
termination_by (objects, references, sizeOf ts)

theorem outputOfArg_alike (objects references : Nat) (building : List ShapeId)
    (args : List StaticType) (position : Nat) (h : names.ParametersAlike limit limit' args) :
    names.outputOfArg limit objects references building (some args) position
      = names.outputOfArg limit' objects references building (some args) position := by
  cases args with
  | nil => simp only [outputOfArg]
  | cons t rest =>
    cases position with
    | succ position =>
      rw [outputOfArg, outputOfArg]
      exact outputOfArg_alike objects references building rest position h.tail
    | zero =>
      cases reference : t.isReference with
      | false =>
        rw [outputOfArg_zero names reference, outputOfArg_zero names reference]
        exact outputIn_alike objects references building t (h.arg List.mem_cons_self)
      | true =>
        obtain ⟨name, rfl⟩ := StaticType.exists_of_isReference reference
        cases references with
        | zero => simp only [outputOfArg]
        | succ references =>
          rw [outputOfArg, outputOfArg]
          exact outputIn_alike objects references building _ (h.target List.mem_cons_self)
termination_by (objects, references, sizeOf args)

theorem outputOfShape_alike (objects references : Nat) (building : List ShapeId)
    (args : Option (List StaticType))
    (h : names.DecideAlike limit limit' (.schema .object args)) :
    names.outputOfShape limit objects references building args
      = names.outputOfShape limit' objects references building args := by
  rw [outputOfShape, outputOfShape]
  split
  · next id name fields optional shape =>
    have alike : ∀ field ∈ (names.fieldsOf id fields).1,
        names.DecideAlike limit limit' field.2 ∧ (names.absence limit field.2 = some .optional ↔
          names.absence limit' field.2 = some .optional) := by
      intro field hfield
      obtain ⟨key, u, hu, rfl⟩ := exists_of_mem_fieldsOf hfield
      exact ⟨h.meets (.field shape hu), h args id name fields optional key u .refl shape hu⟩
    refine bind_congr fun cache => ?_
    cases cache.lookup id with
    | some output => rfl
    | none =>
      dsimp only
      split
      · rfl
      · cases objects with
        | zero => rfl
        | succ objects =>
          dsimp only
          rw [outputFields_alike objects (names.derived.length + 1) (id :: building) _ alike]
  · rfl
termination_by (objects, references, 0)

theorem outputFields_alike (objects references : Nat) (building : List ShapeId) :
    ∀ fields : List (String × StaticType),
    (∀ field ∈ fields, names.DecideAlike limit limit' field.2 ∧
      (names.absence limit field.2 = some .optional ↔
        names.absence limit' field.2 = some .optional)) →
    names.outputFields limit objects references building fields
      = names.outputFields limit' objects references building fields
  | [], _ => by simp only [outputFields]
  | (name, t) :: rest, h => by
    obtain ⟨alike, absent⟩ := h (name, t) List.mem_cons_self
    have marked : (names.absence limit t == some .optional)
        = (names.absence limit' t == some .optional) := by
      rw [Bool.eq_iff_iff, beq_iff_eq, beq_iff_eq]
      exact absent
    simp only [outputFields, outputIn_alike objects references building t alike, marked,
      outputFields_alike objects references building rest fun field hfield =>
        h field (List.mem_cons_of_mem _ hfield)]
termination_by fields => (objects, references, sizeOf fields)

end

/-- Limits that decide alike give the same output type and complete the same shapes. -/
theorem outputOf_alike {t : StaticType} (h : names.DecideAlike limit limit' t) :
    names.outputOf limit t = names.outputOf limit' t :=
  outputIn_alike _ _ _ t h

end Names

namespace OutputCache

/-- A query for an output type: what names stand for, the limit in force, and the type. -/
structure Query where
  names : Names
  limit : Nat
  type : StaticType

/-- The same query under another limit. -/
def Query.under (limit : Nat) (q : Query) : Query :=
  { q with limit }

/-- What is remembered after queries in turn. -/
def after (queries : List Query) : OutputCache :=
  queries.foldl (fun cache q => ((q.names.outputOf q.limit q.type).exec cache).2) []

theorem after_append (queries : List Query) (q : Query) :
    after (queries ++ [q]) = ((q.names.outputOf q.limit q.type).exec (after queries)).2 := by
  rw [after, List.foldl_append]
  rfl

/-- Under a limit that decides alike, the same queries leave the same behind. -/
theorem after_under {queries : List Query} {limit : Nat}
    (h : ∀ q ∈ queries, q.names.DecideAlike q.limit limit q.type) :
    after (queries.map (·.under limit)) = after queries := by
  unfold after
  rw [List.foldl_map]
  refine List.foldl_ext _ _ _ fun cache q hq => ?_
  rw [Names.outputOf_alike (h q hq)]
  rfl

end OutputCache

end Schemata
