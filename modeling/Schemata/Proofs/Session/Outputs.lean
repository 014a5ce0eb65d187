import Mathlib
import Schemata.Proofs.Output.Bound
import Schemata.Proofs.Traversal.Lockstep
import Schemata.Proofs.Validation.Results

/-!
# Output types in a session

Whatever was derived and looked up in a session, what it remembers of output types stays right. So the
output type at a path of a derived type has the results that the schema at the path gives.
-/

namespace Schemata

/-! ## Paths -/

namespace Scope

variable {scope : Scope} {r : Registry} {o : Owners} {limit : Nat} {path : PathArgument}

/-- A traversal stays among the schemas that a search finds. -/
theorem contains_lockstep (root : Schema) :
    scope.view.Lockstep scope.view fun s t => s = t ∧ scope.Contains root s where
  kind := by
    rintro s _ ⟨rfl, _⟩
    rfl
  inner := by
    rintro s _ ⟨rfl, hs⟩ transparent
    rcases Schema.eq_of_isTransparent transparent with
      ⟨id, w, inner, rfl⟩ | ⟨id, rfl⟩ | ⟨id, input, output, rfl⟩
    · exact .ok ⟨rfl, hs.child (Schema.inner_mem_children id w inner)⟩
    · change Related _ (scope.target id) (scope.target id)
      cases htarget : scope.target id with
      | error failure => exact .error failure
      | ok t => exact .ok ⟨rfl, hs.target htarget⟩
    · exact .ok ⟨rfl, hs.child (Schema.output_mem_children id input output)⟩
  property := by
    rintro s _ name ⟨rfl, hs⟩ object
    obtain ⟨id, shape, rfl⟩ := Schema.eq_object_of_kind object
    change Related _ (.ok (shape.lookup name)) (.ok (shape.lookup name))
    cases hlookup : shape.lookup name with
    | none => exact .ok .none
    | some c =>
      have hc := Schema.property_mem_children id (mem_of_lookup hlookup)
      exact .ok (.some ⟨rfl, hs.child hc⟩)
  element := by
    rintro s _ ⟨rfl, hs⟩ array
    obtain ⟨id, element, rfl⟩ := Schema.eq_array_of_kind array
    exact .ok ⟨rfl, hs.child (Schema.element_mem_children id element)⟩
  value := by
    rintro s _ ⟨rfl, hs⟩ record
    obtain ⟨id, key, value, rfl⟩ := Schema.eq_record_of_kind record
    exact .ok ⟨rfl, hs.child (Schema.value_mem_children id key value)⟩
  items := by
    rintro s _ ⟨rfl, hs⟩ tuple
    obtain ⟨id, items, rfl⟩ := Schema.eq_tuple_of_kind tuple
    exact .ok (List.forall₂_same.mpr fun c hc => ⟨rfl, hs.child hc⟩)
  options := by
    rintro s _ ⟨rfl, hs⟩ union
    obtain ⟨id, options, rfl⟩ := Schema.eq_union_of_kind union
    exact .ok (List.forall₂_same.mpr fun c hc => ⟨rfl, hs.child hc⟩)

/-- A path leads only to schemas that a search finds. -/
theorem contains_of_resolve {root s : Schema}
    (h : (scope.resolve limit root path).outcome = .ok s) : scope.Contains root s := by
  unfold resolve at h
  cases hcoerce : path.coerce with
  | error failure =>
    rw [hcoerce] at h
    cases h
  | ok coerced =>
    obtain ⟨text, pieces⟩ := coerced
    rw [hcoerce] at h
    have walked : (scope.view.walkPieces limit text root pieces).outcome = .ok s := h
    have lockstep : scope.view.Lockstep scope.view _ := contains_lockstep root
    have same := (lockstep.walkPieces limit text pieces ⟨rfl, .refl⟩).outcome
    rw [walked] at same
    obtain ⟨_, _, found⟩ := same.exists_of_ok
    exact found.2

/-- Where a path leads to a schema, it leads to a description of it in the derived type. -/
theorem Sound.typeAt_of_resolve (h : scope.Sound r o) {s s' : Schema} {t : StaticType}
    (hst : DescribesDerived o r.Named s t) (resolved : (scope.resolve limit s path).outcome = .ok s') :
    ∃ u, r.names.typeAt limit t path = .ok u ∧
      Describes (scope.reading o r.Named) r.Named s' u := by
  obtain ⟨found, heq, related⟩ := h.leads hst limit path
  rw [resolved] at related
  cases related with
  | ok hu => exact ⟨_, heq, hu⟩

/-- What a path through a derived type leads to, if anything, describes a schema or has no values. -/
theorem Sound.typeAt_cases (h : scope.Sound r o) {s : Schema} {t u : StaticType}
    (hst : DescribesDerived o r.Named s t) (hu : r.names.typeAt limit t path = .ok u) :
    u = .never ∨ ∃ s', Describes (scope.reading o r.Named) r.Named s' u := by
  obtain ⟨found, heq, related⟩ := h.leads hst limit path
  rw [heq] at hu
  generalize (scope.resolve limit s path).outcome = x at related
  cases related with
  | ok describes =>
    cases hu
    exact .inr ⟨_, describes⟩
  | error failure =>
    simp only [Names.reached] at hu
    split at hu <;> cases hu
    exact .inl rfl

end Scope

/-! ## Histories -/

namespace Session

open Scope

/-- The output type at a path of a type. -/
def outputAt (t : StaticType) (path : PathArgument) : Activity StaticType := do
  outputOfType (← typeAtPath t path)

/-- The output type of a schema. -/
def outputOfSchema (s : Schema) : Activity StaticType := do
  outputOfType (← deriveType (.schema s))

/-- What may have happened in a session since its start: types were derived, with success, output types
of derived types were looked up, with or without success, and other things were done that leave the
derived types, the output types, the limit and the targets of lazy schemas alone. `derived` are the
schemas with the types that were derived from them. -/
inductive History (start : Session) : (derived : List (Schema × StaticType)) → Session → Prop
  | start : History start [] start
  | derives {derived : List (Schema × StaticType)} {σ σ' : Session} {s : Schema} {t : StaticType} :
    History start derived σ → (deriveType (.schema s)).exec σ = (.ok t, σ') →
    History start ((s, t) :: derived) σ'
  | outputAt {derived : List (Schema × StaticType)} {σ σ' : Session} {s : Schema} {t : StaticType}
      {path : PathArgument} {outcome : Except Failure StaticType} :
    History start derived σ → (s, t) ∈ derived →
    (Session.outputAt t path).exec σ = (outcome, σ') → History start derived σ'
  | elsewhere {derived : List (Schema × StaticType)} {σ σ' : Session}
      (declared : List (Space × String × StaticType)) :
    History start derived σ →
    σ'.registry = { σ.registry with names := { σ.registry.names with declared } } →
    σ'.outputs = σ.outputs → σ'.settings.maxUnwrapDepth = σ.settings.maxUnwrapDepth →
    (∀ id s, σ.workshop.scope.target id = .ok s → σ'.workshop.scope.target id = .ok s) →
    History start derived σ'

/-- What holds throughout a history. The output shapes stay right when more lazy schemas have
targets. -/
structure Remembers (σ : Session) (derived : List (Schema × StaticType)) (o : Owners) : Prop where
  sound : σ.workshop.scope.Sound σ.registry o
  describes {s : Schema} {t : StaticType} : (s, t) ∈ derived →
    DescribesDerived o σ.registry.Named s t
  cached (scope : Scope) :
    (∀ id s, σ.workshop.scope.target id = .ok s → scope.target id = .ok s) →
    scope.Cached σ.settings.maxUnwrapDepth o [] σ.outputs

variable {σ σ' : Session} {derived : List (Schema × StaticType)} {o : Owners} {s : Schema}
  {t u : StaticType} {path : PathArgument}

theorem exec_outputAt_ok
    (h : σ.registry.names.typeAt σ.settings.maxUnwrapDepth t path = .ok u) :
    (outputAt t path).exec σ = (outputOfType u).exec σ := by
  unfold outputAt
  exact Stateful.exec_bind_ok (by rw [exec_typeAtPath, h]) _

theorem exec_outputAt_error {failure : Failure}
    (h : σ.registry.names.typeAt σ.settings.maxUnwrapDepth t path = .error failure) :
    (outputAt t path).exec σ = (.error failure, σ) := by
  unfold outputAt
  exact Stateful.exec_bind_error (by rw [exec_typeAtPath, h]) _

namespace Remembers

theorem start (fresh : Scope.Fresh σ.registry) (empty : σ.outputs = []) :
    Remembers σ [] fun _ => none where
  sound := fresh.sound
  describes h := absurd h List.not_mem_nil
  cached _ _ := empty ▸ .empty

/-- Deriving a type keeps what is remembered. -/
theorem derives (h : Remembers σ derived o)
    (hexec : (deriveType (.schema s)).exec σ = (.ok t, σ')) :
    ∃ o', Remembers σ' ((s, t) :: derived) o' := by
  rw [exec_deriveType] at hexec
  obtain ⟨hok, rfl⟩ := Prod.mk.inj hexec
  have start : σ.workshop.scope.Sound σ.unasked o := h.sound.with σ.registry.names.declared []
  have run := σ.workshop.scope.staticType_run start.ready s
  generalize (σ.workshop.scope.staticType s).exec σ.unasked = x at run hok
  cases run with
  | error => cases hok
  | @ok _ r o' grows _ ht =>
    cases hok
    refine ⟨o', start.grows grows, ?_, ?_⟩
    · intro s' t' hmem
      rcases List.mem_cons.mp hmem with heq | hmem
      · cases heq
        exact ht
      · exact (h.describes hmem).mono (fun _ _ => grows.owners) fun _ _ => grows.le.named
    · exact fun scope targets => (h.cached scope targets).widen fun _ _ => grows.owners

/-- Looking an output type up keeps what is remembered. -/
theorem outputAt (h : Remembers σ derived o) (hmem : (s, t) ∈ derived)
    {outcome : Except Failure StaticType}
    (hexec : (Session.outputAt t path).exec σ = (outcome, σ')) : Remembers σ' derived o := by
  cases hfound : σ.registry.names.typeAt σ.settings.maxUnwrapDepth t path with
  | error failure =>
    rw [exec_outputAt_error hfound] at hexec
    cases hexec
    exact h
  | ok u =>
    rw [exec_outputAt_ok hfound, exec_outputOfType] at hexec
    obtain ⟨_, rfl⟩ := Prod.mk.inj hexec
    refine ⟨h.sound, h.describes, fun scope targets => ?_⟩
    have sound := h.sound.widen targets
    rcases sound.typeAt_cases (h.describes hmem) hfound with rfl | ⟨s', hu⟩
    · rw [Names.exec_outputOf_never]
      exact h.cached scope targets
    · have run := sound.outputOf_run hu (h.cached scope targets)
      simp only
      generalize (σ.registry.names.outputOf _ u).exec σ.outputs = x at run ⊢
      cases run with
      | ok _ cached _ => exact cached
      | error cached _ => exact cached

theorem elsewhere (h : Remembers σ derived o) (declared : List (Space × String × StaticType))
    (hregistry : σ'.registry = { σ.registry with names := { σ.registry.names with declared } })
    (houtputs : σ'.outputs = σ.outputs)
    (hlimit : σ'.settings.maxUnwrapDepth = σ.settings.maxUnwrapDepth)
    (targets : ∀ id s, σ.workshop.scope.target id = .ok s → σ'.workshop.scope.target id = .ok s) :
    Remembers σ' derived o where
  sound := by
    rw [hregistry]
    exact (h.sound.with declared σ.registry.asked).widen targets
  describes hmem := by
    rw [hregistry]
    exact h.describes hmem
  cached scope further := by
    rw [houtputs, hlimit]
    exact h.cached scope fun id s hs => further id s (targets id s hs)

/-- The output type of what describes a schema can be looked up, and its values are those that fit the
schema. -/
theorem outputOfType (h : Remembers σ derived o)
    (hst : Describes (σ.workshop.scope.reading o σ.registry.Named) σ.registry.Named s u)
    (expressible : σ.workshop.scope.Expressible s) :
    ∃ out σ', (Session.outputOfType u).exec σ = (.ok out, σ') ∧ ∀ v,
      Inhabits σ'.outputs.named? v out ↔ σ.workshop.scope.Fits σ.settings.maxUnwrapDepth s v := by
  have start := h.cached σ.workshop.scope fun _ _ h => h
  have run := h.sound.outputOf_run hst start
  have exec := exec_outputOfType u σ
  simp only at exec
  generalize (σ.registry.names.outputOf _ u).exec σ.outputs = x at run exec
  cases run with
  | error _ cannot => exact absurd expressible cannot
  | ok _ cached yields =>
    exact ⟨_, _, exec, fun v => cached.closed.agrees v s _ expressible yields⟩

/-- Defaults that belong to the output types of what they stand for fit it. -/
theorem defaultsFit (h : Remembers σ derived o) (expressible : σ.workshop.scope.Expressible s)
    (defaults : ∀ id value inner, σ.workshop.scope.Contains s (.wrapper id (.default value) inner) →
      ∃ out σ', (outputOfSchema inner).exec σ = (.ok out, σ') ∧
        Inhabits σ'.outputs.named? value out) :
    σ.workshop.scope.DefaultsFit σ.settings.maxUnwrapDepth s := by
  intro id value inner hcontains
  obtain ⟨out, σ', hexec, hvalue⟩ := defaults id value inner hcontains
  have hinner := expressible.of_contains (hcontains.child (Schema.inner_mem_children _ _ _))
  obtain ⟨t, σ₁, hderive, hexec⟩ := Stateful.exec_bind_eq_ok hexec
  obtain ⟨o₁, remembers⟩ := h.derives hderive
  rw [exec_deriveType] at hderive
  obtain ⟨_, rfl⟩ := Prod.mk.inj hderive
  have describes := remembers.describes List.mem_cons_self
  obtain ⟨out', σ₂, hexec', values⟩ := remembers.outputOfType describes.toReading hinner
  obtain ⟨heq, rfl⟩ := Prod.mk.inj (hexec.symm.trans hexec')
  cases heq
  exact (values value).mp hvalue

end Remembers

/-- Throughout a history, what is remembered is right. -/
theorem History.remembers {start : Session} (fresh : Scope.Fresh start.registry)
    (empty : start.outputs = []) (h : History start derived σ) : ∃ o, Remembers σ derived o := by
  induction h with
  | start => exact ⟨_, .start fresh empty⟩
  | derives _ hexec ih =>
    obtain ⟨o, remembers⟩ := ih
    exact remembers.derives hexec
  | outputAt _ hmem hexec ih =>
    obtain ⟨o, remembers⟩ := ih
    exact ⟨o, remembers.outputAt hmem hexec⟩
  | elsewhere declared _ hregistry houtputs hlimit targets ih =>
    obtain ⟨o, remembers⟩ := ih
    exact ⟨o, remembers.elsewhere declared hregistry houtputs hlimit targets⟩

/-- The output type at a path can be looked up, and its values are exactly those that fit the schema at
the path. -/
theorem Remembers.outputAt_values {s' : Schema} (h : Remembers σ derived o) (hmem : (s, t) ∈ derived)
    (expressible : σ.workshop.scope.Expressible s)
    (resolved : (σ.workshop.scope.resolve σ.settings.maxUnwrapDepth s path).outcome = .ok s') :
    ∃ out σ', (Session.outputAt t path).exec σ = (.ok out, σ') ∧ ∀ v,
      Inhabits σ'.outputs.named? v out ↔ σ.workshop.scope.Fits σ.settings.maxUnwrapDepth s' v := by
  obtain ⟨u, hu, describes⟩ := h.sound.typeAt_of_resolve (h.describes hmem) resolved
  rw [exec_outputAt_ok hu]
  exact h.outputOfType describes (expressible.of_contains (contains_of_resolve resolved))

/-- What the schema at a path gives belongs to the output type at the path. This holds at any time for
a type that was derived from a schema before, as long as every cycle of the schema passes through an
object, its literals are made of atoms, and its defaults belong to the output types of what they stand
for. -/
theorem result_inhabits_outputAt {start : Session} {path : PathArgument} {s s' : Schema}
    {validator : Validator} {value result : Value} (fresh : Scope.Fresh start.registry)
    (empty : start.outputs = []) (history : History start derived σ) (hmem : (s, t) ∈ derived)
    (guarded : σ.workshop.scope.Guarded s) (atomic : σ.workshop.scope.Atomic s)
    (defaults : ∀ id value inner, σ.workshop.scope.Contains s (.wrapper id (.default value) inner) →
      ∃ out σ', (outputOfSchema inner).exec σ = (.ok out, σ') ∧
        Inhabits σ'.outputs.named? value out)
    (resolved : (σ.workshop.scope.resolve σ.settings.maxUnwrapDepth s path).outcome = .ok s')
    (compiled : (σ.workshop.scope.compile σ.settings.maxUnwrapDepth s').outcome = .ok validator)
    (accepted : validator.validate value = .ok result) :
    ∃ out σ', (outputAt t path).exec σ = (.ok out, σ') ∧ Inhabits σ'.outputs.named? result out := by
  obtain ⟨o, remembers⟩ := history.remembers fresh empty
  have expressible : σ.workshop.scope.Expressible s := ⟨atomic, guarded⟩
  have defaultsFit := (remembers.defaultsFit expressible defaults).of_contains
    (contains_of_resolve resolved)
  have fits := validate_fits defaultsFit compiled accepted
  obtain ⟨out, σ', hexec, values⟩ := remembers.outputAt_values hmem expressible resolved
  exact ⟨out, σ', hexec, (values result).mpr fits⟩

/-- A tree whose nodes have labels, with a default. -/
def labelled : Schema :=
  .object 1 [("label", .wrapper 4 (.default (.str "leaf")) (.leaf 2 (.string false))),
    ("children", .array 3 (.lazy 0))]

/-- A session in which the labelled tree is defined. -/
def withLabelled : Session :=
  { initial with
    workshop :=
      { Workshop.empty with
        scope := { defs := [("TREE", .schema labelled)], getters := [(0, .named "TREE")] } } }

theorem labelled_cases {s : Schema} (h : withLabelled.workshop.scope.Contains labelled s) :
    s = labelled ∨ s = .wrapper 4 (.default (.str "leaf")) (.leaf 2 (.string false)) ∨
      s = .leaf 2 (.string false) ∨ s = .array 3 (.lazy 0) ∨ s = .lazy 0 := by
  let P (s : Schema) : Prop :=
    s = labelled ∨ s = .wrapper 4 (.default (.str "leaf")) (.leaf 2 (.string false)) ∨
      s = .leaf 2 (.string false) ∨ s = .array 3 (.lazy 0) ∨ s = .lazy 0
  refine Reaches.closed (P := P) h ?_ (.inl rfl)
  rintro s t hs hlead
  cases hlead with
  | child hmem =>
    rcases hs with rfl | rfl | rfl | rfl | rfl <;> simp [Schema.children, labelled] at hmem
    · rcases hmem with rfl | rfl <;> simp [P]
    · simp [P, hmem]
    · simp [P, hmem]
  | @target id t _ ht =>
    obtain rfl : id = 0 := by simpa [P, labelled] using hs
    have target : withLabelled.workshop.scope.target 0 = .ok labelled := rfl
    rw [target] at ht
    cases ht
    exact .inl rfl

/-- The only cycle passes through the tree itself. -/
theorem labelled_guarded : withLabelled.workshop.scope.Guarded labelled := by
  intro id hid cycle
  have stuck {s : Schema} : ¬ withLabelled.workshop.scope.LeadsBeside labelled s := by
    rintro ⟨⟨⟩, _⟩
  obtain rfl : id = 0 := by simpa [labelled] using labelled_cases hid
  obtain ⟨s, hfirst, hrest⟩ := Relation.TransGen.head'_iff.mp cycle
  cases hfirst with
  | child hs => cases hs
  | target htarget =>
    cases htarget
    rcases Relation.ReflTransGen.cases_head hrest with heq | ⟨_, hnext, _⟩
    · cases heq
    · exact stuck hnext

/-- The type that is derived from the labelled tree. -/
def labelledType : StaticType :=
  .schema .object (some [.shape (.derived 0) (Registry.shapeName 0)
    [("label", .schema .default (some [.schema .string none])),
      ("children", .schema .array (some [.schema .lazy (some [.reference (Registry.lazyName 0)])]))]
    []])

/-- The session after the type was derived. -/
def afterLabelled : Session :=
  ((deriveType (.schema labelled)).exec withLabelled).2

theorem afterLabelled_workshop : afterLabelled.workshop = withLabelled.workshop := by
  rw [afterLabelled, exec_deriveType]
  rfl

theorem afterLabelled_limit : afterLabelled.settings.maxUnwrapDepth = 64 := by
  rw [afterLabelled, exec_deriveType]
  rfl

theorem afterLabelled_history : History withLabelled [(labelled, labelledType)] afterLabelled :=
  .derives .start (Prod.ext (by cbv) rfl)

/-- A tree below the root gets the default label, and belongs to the output type with it. -/
theorem result_inhabits_outputAt_labelled :
    let result : Value := .dict [(.str "label", .str "leaf"), (.str "children", .list [])]
    ∃ validator,
      (afterLabelled.workshop.scope.compile afterLabelled.settings.maxUnwrapDepth (.lazy 0)).outcome
        = .ok validator ∧
      validator.validate (.dict [(.str "children", .list [])]) = .ok result ∧
      ∃ out σ, (outputAt labelledType (.text "children[]")).exec afterLabelled = (.ok out, σ) ∧
        Inhabits σ.outputs.named? result out := by
  intro result
  obtain ⟨validator, compiled, accepted⟩ : ∃ validator,
      (withLabelled.workshop.scope.compile 64 (.lazy 0)).outcome = .ok validator ∧
      validator.validate (.dict [(.str "children", .list [])]) = .ok result := by
    have parsed : ((withLabelled.workshop.scope.compile 64 (.lazy 0)).outcome >>= fun validator =>
        validator.validate (.dict [(.str "children", .list [])]))
        = .ok (.dict [(.str "label", .str "leaf"), (.str "children", .list [])]) := by
      cbv
    generalize (withLabelled.workshop.scope.compile 64 (.lazy 0)).outcome = x at parsed
    cases x with
    | error failure => cases parsed
    | ok validator => exact ⟨validator, rfl, parsed⟩
  rw [← afterLabelled_workshop, ← afterLabelled_limit] at compiled
  refine ⟨validator, compiled, accepted, ?_⟩
  refine result_inhabits_outputAt ⟨rfl, rfl⟩ rfl afterLabelled_history List.mem_cons_self ?_ ?_ ?_ ?_
    compiled accepted
  · rw [afterLabelled_workshop]
    exact labelled_guarded
  · rw [afterLabelled_workshop]
    intro id l hl
    obtain ⟨rfl, rfl⟩ : id = 2 ∧ l = .string false := by simpa [labelled] using labelled_cases hl
    trivial
  · rw [afterLabelled_workshop]
    intro id value inner hinner
    obtain ⟨rfl, rfl, rfl⟩ : id = 4 ∧ value = .str "leaf" ∧ inner = .leaf 2 (.string false) := by
      simpa [labelled] using labelled_cases hinner
    have hout : ((outputOfSchema (.leaf 2 (.string false))).exec afterLabelled).1
        = .ok (.plain .str) := by
      cbv
    exact ⟨_, _, Prod.ext hout rfl, .plain (.str _)⟩
  · rw [afterLabelled_workshop, afterLabelled_limit]
    cbv

end Session

end Schemata
