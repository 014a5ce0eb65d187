import Schemata.Session.Activities

/-!
# Runs of activities

What each activity of a session answers and which session it leaves behind. These equations are all
that the theory of sessions knows of the definitions.
-/

namespace Schemata

namespace Session

variable {α : Type}

/-- The session after lazy schemas were asked for their targets. -/
def asking (σ : Session) (ids : List NodeId) : Session :=
  { σ with calls := σ.calls.askAll σ.workshop.scope ids }

/-- The registry in which a session derives types. -/
abbrev unasked (σ : Session) : Registry :=
  { σ.registry with asked := [] }

/-- The session after a derivation. -/
def withRegistry (σ : Session) (r : Registry) : Session :=
  { σ with registry := r, calls := σ.calls.askAll σ.workshop.scope r.asked.reverse }

@[simp] theorem asking_nil (σ : Session) : σ.asking [] = σ := rfl

@[simp] theorem asking_append (σ : Session) (ids ids' : List NodeId) :
    σ.asking (ids ++ ids') = (σ.asking ids).asking ids' := by
  simp [asking, CallLog.askAll, List.foldl_append]

@[simp] theorem exec_limit (σ : Session) : limit.exec σ = (.ok σ.settings.maxUnwrapDepth, σ) := rfl

@[simp] theorem exec_names (σ : Session) : names.exec σ = (.ok σ.registry.names, σ) := rfl

@[simp] theorem exec_scope (σ : Session) : scope.exec σ = (.ok σ.workshop.scope, σ) := rfl

@[simp] theorem exec_note (ids : List NodeId) (σ : Session) :
    (note ids).exec σ = (.ok (), σ.asking ids) := rfl

@[simp] theorem exec_describe (s : Schema) (σ : Session) :
    (describe s).exec σ = (.ok (σ.workshop.describe s), σ) := rfl

/-! ## Parts of a session -/

@[simp] theorem exec_making (m : Making α) (σ : Session) :
    (making m).exec σ = match m σ.workshop with
      | .ok (a, workshop) => (.ok a, { σ with workshop })
      | .error failure => (.error failure, σ) := by
  unfold making
  cases h : m σ.workshop <;> simp [h]

@[simp] theorem exec_following (t : Trail NodeId α) (σ : Session) :
    (following t).exec σ = (t.outcome, σ.asking t.entered) := by
  unfold following
  cases h : t.outcome <;> simp

@[simp] theorem exec_registering (d : Deriving α) (σ : Session) :
    (registering d).exec σ = ((d.exec σ.unasked).1, σ.withRegistry (d.exec σ.unasked).2) := by
  unfold registering
  rcases h : d.exec σ.unasked with ⟨_ | _, registry⟩ <;> simp [h, asking, withRegistry]

@[simp] theorem exec_outputting (o : Outputting α) (σ : Session) :
    (outputting o).exec σ = ((o.exec σ.outputs).1, { σ with outputs := (o.exec σ.outputs).2 }) := by
  unfold outputting
  rcases h : o.exec σ.outputs with ⟨_ | _, outputs⟩ <;> simp [h]

/-! ## Schemas and types -/

/-- Following a path changes nothing but which lazy schemas were asked for their targets. -/
@[simp] theorem exec_schemaAt_resolve (root : Schema) (path : PathArgument) (σ : Session) :
    let found := σ.workshop.scope.resolve σ.settings.maxUnwrapDepth root path
    (schemaAt (.schema root) path).exec σ = (found.outcome, σ.asking found.entered) := by
  simp [schemaAt]

@[simp] theorem exec_deriveType (s : Schema) (σ : Session) :
    (deriveType (.schema s)).exec σ =
      (((σ.workshop.scope.staticType s).exec σ.unasked).1,
        σ.withRegistry ((σ.workshop.scope.staticType s).exec σ.unasked).2) := by
  simp [deriveType]

/-- Looking a type up changes nothing. -/
@[simp] theorem exec_typeAtPath (t : StaticType) (path : PathArgument) (σ : Session) :
    (typeAtPath t path).exec σ
      = (σ.registry.names.typeAt σ.settings.maxUnwrapDepth t path, σ) := by
  simp [typeAtPath]

/-- The output type of a type changes nothing but what is remembered of outputs. -/
@[simp] theorem exec_outputOfType (t : StaticType) (σ : Session) :
    let x := (σ.registry.names.outputOf σ.settings.maxUnwrapDepth t).exec σ.outputs
    (outputOfType t).exec σ = (x.1, { σ with outputs := x.2 }) := by
  simp [outputOfType]

/-! ## Validation -/

/-- The plan of a schema is remembered, or else made and then remembered. -/
theorem exec_validatorOf (s : Schema) (σ : Session) :
    let made := σ.workshop.scope.compile σ.settings.maxUnwrapDepth s
    (validatorOf s).exec σ = match σ.validators.lookup s.id, made.outcome with
      | some v, _ => (.ok v, σ)
      | none, .error failure => (.error failure, σ.asking made.entered)
      | none, .ok v =>
        (.ok v, { σ.asking made.entered with validators := (s.id, v) :: σ.validators }) := by
  unfold validatorOf
  cases known : σ.validators.lookup s.id with
  | some v => simp [known]
  | none =>
    cases made : (σ.workshop.scope.compile σ.settings.maxUnwrapDepth s).outcome <;>
      simp [known, made, asking]

/-! ## Settings -/

@[simp] theorem exec_assignAll_nil (σ : Session) : (assignAll []).exec σ = (.ok (), σ) := rfl

@[simp] theorem exec_assignAll_cons (name : String) (v : Value) (rest : List (String × Value))
    (σ : Session) :
    (assignAll ((name, v) :: rest)).exec σ = match σ.settings.assign name v with
      | .ok settings => (assignAll rest).exec { σ with settings }
      | .error failure => (.error failure, σ) := by
  cases assigned : σ.settings.assign name v <;> simp [assignAll, assigned]

end Session

end Schemata
