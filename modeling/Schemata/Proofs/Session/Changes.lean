import Schemata.Proofs.Session.Resolution
import Schemata.Session.Perform

/-!
# What requests change

A request changes a session step by step: schemas are made, lazy schemas are asked for their
targets, types are derived, output types are built, schemas are compiled, settings are assigned, the
logger is configured. What every single change keeps, every request keeps.
-/

namespace Schemata

namespace Session

/-! ## Activities that keep a relation -/

section

variable {α β : Type} {R S : Session → Session → Prop} {m : Activity α} {f : α → Activity β}

/-- An activity leads from every session to one that is related to it, whether it fails or not. -/
def Keeps (R : Session → Session → Prop) (m : Activity α) : Prop :=
  ∀ σ, R σ (m.exec σ).2

namespace Keeps

theorem imp (h : Keeps R m) (hRS : ∀ σ σ', R σ σ' → S σ σ') : Keeps S m :=
  fun σ => hRS _ _ (h σ)

theorem of_exec {outcome : Session → Except Failure α} {next : Session → Session}
    (run : ∀ σ, m.exec σ = (outcome σ, next σ)) (h : ∀ σ, R σ (next σ)) : Keeps R m := by
  intro σ
  rw [run]
  exact h σ

variable [IsPreorder Session R]

theorem pure (a : α) : Keeps R (Pure.pure a : Activity α) :=
  fun σ => refl σ

theorem throw (failure : Failure) : Keeps R (MonadExcept.throw failure : Activity α) :=
  fun σ => refl σ

theorem ofExcept (x : Except Failure α) : Keeps R (MonadExcept.ofExcept x : Activity α) :=
  of_exec (Stateful.exec_ofExcept x) refl

theorem get : Keeps R (MonadState.get : Activity Session) :=
  fun σ => refl σ

theorem limit : Keeps R Session.limit :=
  of_exec exec_limit refl

theorem scope : Keeps R Session.scope :=
  of_exec exec_scope refl

theorem names : Keeps R Session.names :=
  of_exec exec_names refl

theorem bind (hm : Keeps R m) (hf : ∀ a, Keeps R (f a)) : Keeps R (m >>= f) := by
  intro σ
  have first := hm σ
  rw [Stateful.exec_bind]
  generalize m.exec σ = run at first
  obtain ⟨_ | a, σ'⟩ := run
  · exact first
  · exact trans_of R first (hf a σ')

theorem map (hm : Keeps R m) (g : α → β) : Keeps R (g <$> m) := by
  rw [map_eq_pure_bind]
  exact hm.bind fun a => .pure _

theorem tryCatch {handle : Failure → Activity α} (hm : Keeps R m)
    (hh : ∀ failure, Keeps R (handle failure)) : Keeps R (MonadExcept.tryCatch m handle) := by
  intro σ
  have first := hm σ
  rw [Stateful.exec_tryCatch]
  generalize m.exec σ = run at first
  obtain ⟨_ | failure, σ'⟩ := run
  · exact trans_of R first (hh _ σ')
  · exact first

theorem attempt (hm : Keeps R m) : Keeps R (Session.attempt m) := by
  unfold Session.attempt
  refine bind (tryCatch (hm.bind fun _ => ?_) fun _ => ?_) fun e => ?_
  · exact .pure _
  · exact .pure _
  · cases e <;> exact .pure _

theorem mapM {l : List α} (h : ∀ a, Keeps R (f a)) : Keeps R (l.mapM f) := by
  induction l with
  | nil => exact .pure []
  | cons a l ih =>
    rw [List.mapM_cons]
    exact (h a).bind fun b => ih.bind fun bs => .pure _

theorem foldlM {l : List α} {g : β → α → Activity β} (h : ∀ b a, Keeps R (g b a)) (b : β) :
    Keeps R (l.foldlM g b) := by
  induction l generalizing b with
  | nil => exact .pure b
  | cons a l ih =>
    rw [List.foldlM_cons]
    exact (h b a).bind ih

theorem forIn {l : List α} {g : α → β → Activity (ForInStep β)} (h : ∀ a b, Keeps R (g a b))
    (b : β) : Keeps R (ForIn.forIn l b g) := by
  induction l generalizing b with
  | nil => exact .pure b
  | cons a l ih =>
    rw [List.forIn_cons]
    refine (h a b).bind fun step => ?_
    cases step with
    | done b => exact .pure b
    | yield b => exact ih b

end Keeps

end

/-! ## Changes -/

/-- What can happen to a session at a time, if only some schemas are compiled for good. -/
inductive Change (compiled : Schema → Prop) (σ : Session) : Session → Prop
  | makes {b : Blueprint} {label : String} {item : Item} {workshop : Workshop} :
    b.make label σ.workshop = .ok (item, workshop) → Change compiled σ { σ with workshop }
  | asks (ids : List NodeId) : Change compiled σ (σ.asking ids)
  | derives (s : Schema) :
    Change compiled σ (σ.withRegistry ((σ.workshop.scope.staticType s).exec σ.unasked).2)
  | builds (t : StaticType) :
    Change compiled σ { σ with
      outputs := ((σ.registry.names.outputOf σ.settings.maxUnwrapDepth t).exec σ.outputs).2 }
  | compiles {s : Schema} {v : Validator} : compiled s → σ.validators.lookup s.id = none →
    (σ.workshop.scope.compile σ.settings.maxUnwrapDepth s).outcome = .ok v →
    Change compiled σ { σ with validators := (s.id, v) :: σ.validators }
  | assigns {name : String} {v : Value} {settings : Settings} :
    σ.settings.assign name v = .ok settings → Change compiled σ { σ with settings }
  | logs (logger : Logger) : Change compiled σ { σ with logger }

variable {compiled : Schema → Prop} {P : Nat → Prop}

/-- Changes one after another that set no limit but such as satisfy `P`. -/
def Changes (compiled : Schema → Prop) (P : Nat → Prop) (σ σ' : Session) : Prop :=
  P σ.settings.maxUnwrapDepth →
    Relation.ReflTransGen (fun σ σ' => Change compiled σ σ' ∧ P σ'.settings.maxUnwrapDepth) σ σ'

theorem Changes.limit {σ σ' : Session} (h : Changes compiled P σ σ')
    (hP : P σ.settings.maxUnwrapDepth) : P σ'.settings.maxUnwrapDepth := by
  rcases (h hP).cases_tail with rfl | ⟨_, _, _, hP'⟩
  · exact hP
  · exact hP'

instance : IsPreorder Session (Changes compiled P) where
  refl _ _ := .refl
  trans _ _ _ h h' hP := (h hP).trans (h' (h.limit hP))

theorem Change.changes {σ σ' : Session} (h : Change compiled σ σ')
    (same : σ'.settings = σ.settings) : Changes compiled P σ σ' :=
  fun hP => .single ⟨h, same ▸ hP⟩

/-! ## Schemas and types -/

theorem keeps_make (label : String) (b : Blueprint) :
    Keeps (Changes compiled P) (making (b.make label)) := by
  intro σ
  rw [exec_making]
  cases made : b.make label σ.workshop with
  | error failure => exact refl σ
  | ok made' => exact (Change.makes made).changes rfl

theorem keeps_makeItem (b : Blueprint) : Keeps (Changes compiled P) (makeItem b) :=
  keeps_make rootLabel b

theorem keeps_makeSchema (b : Blueprint) (fail : String → Failure) :
    Keeps (Changes compiled P) (makeSchema b fail) :=
  (keeps_makeItem b).bind fun _ => .ofExcept _

theorem keeps_makePath (d : Path.Description) : Keeps (Changes compiled P) (makePath d) :=
  .ofExcept _

theorem keeps_note (ids : List NodeId) : Keeps (Changes compiled P) (note ids) :=
  fun _ => (Change.asks ids).changes rfl

theorem keeps_following {α : Type} (t : Trail NodeId α) :
    Keeps (Changes compiled P) (following t) :=
  .of_exec (exec_following t) fun _ => (Change.asks _).changes rfl

theorem keeps_deriveType (item : Item) : Keeps (Changes compiled P) (deriveType item) := by
  cases item with
  | value v => exact .throw _
  | schema s => exact .of_exec (exec_deriveType s) fun _ => (Change.derives s).changes rfl

theorem keeps_typeAtPath (t : StaticType) (path : PathArgument) :
    Keeps (Changes compiled P) (typeAtPath t path) :=
  .of_exec (exec_typeAtPath t path) refl

theorem keeps_outputOfType (t : StaticType) : Keeps (Changes compiled P) (outputOfType t) :=
  .of_exec (exec_outputOfType t) fun _ => (Change.builds t).changes rfl

mutual

theorem keeps_makeType : ∀ b : TypeBlueprint, Keeps (Changes compiled P) (makeType b)
  | .constant _ => .pure _
  | .bare _ => .pure _
  | .applied _ args => (keeps_makeTypes args).bind fun _ => .ofExcept _
  | .members _ _ => .ofExcept _
  | .declared _ => Keeps.names.bind fun _ => .pure _
  | .forward _ => .pure _
  | .derived schema => (keeps_make typeLabel schema).bind keeps_deriveType

theorem keeps_makeTypes : ∀ bs : List TypeBlueprint, Keeps (Changes compiled P) (makeTypes bs)
  | [] => .pure _
  | b :: rest => (keeps_makeType b).bind fun _ => (keeps_makeTypes rest).bind fun _ => .pure _

end

theorem keeps_describe (s : Schema) : Keeps (Changes compiled P) (describe s) :=
  Keeps.get.bind fun _ => .pure _

theorem keeps_schemaAt (item : Item) (path : PathArgument) :
    Keeps (Changes compiled P) (schemaAt item path) :=
  (Keeps.ofExcept _).bind fun _ => Keeps.scope.bind fun _ => Keeps.limit.bind fun _ =>
    keeps_following _

theorem keeps_accessPart (function : Access) (item : Item) :
    Keeps (Changes compiled P) (accessPart function item) := by
  cases function with
  | inner =>
    exact (Keeps.ofExcept _).bind fun _ => (keeps_note _).bind fun _ => Keeps.scope.bind fun _ =>
      (Keeps.ofExcept _).bind fun _ => (keeps_describe _).bind fun _ => .pure _
  | child accessor =>
    refine (Keeps.ofExcept _).bind fun s => ?_
    cases accessor with
    | shape =>
      exact (Keeps.ofExcept _).bind fun _ =>
        (Keeps.mapM fun _ => (keeps_describe _).bind fun _ => .pure _).bind fun _ => .pure _
    | element | value =>
      exact (Keeps.ofExcept _).bind fun _ => (keeps_describe _).bind fun _ => .pure _
    | items | options =>
      exact (Keeps.ofExcept _).bind fun _ => (Keeps.mapM keeps_describe).bind fun _ => .pure _

theorem keeps_walkFrom (item : Item) (pieces : List Piece) (text : String) :
    Keeps (Changes compiled P) (walkFrom item pieces text) :=
  (Keeps.ofExcept _).bind fun _ => Keeps.scope.bind fun _ => Keeps.limit.bind fun _ =>
    keeps_following _

theorem keeps_absenceOf (item : Item) : Keeps (Changes compiled P) (absenceOf item) := by
  cases item with
  | value v => exact .pure _
  | schema s => exact Keeps.scope.bind fun _ => Keeps.limit.bind fun _ => keeps_following _

theorem keeps_accessTypePart (function : TypeAccess) (t : StaticType) :
    Keeps (Changes compiled P) (accessTypePart function t) := by
  refine Keeps.names.bind fun names => ?_
  cases function with
  | properties key =>
    refine (Keeps.ofExcept _).bind fun properties => ?_
    cases key.unhashable? with
    | some given => exact .throw _
    | none => exact .pure _
  | _ => exact .pure _

theorem keeps_agree (item : Item) (t : Option StaticType) (path : PathArgument) :
    Keeps (Changes compiled P) (agree item t path) := by
  have checked (t : StaticType) : Keeps (Changes compiled P) (do
      following (Agreement.check (← scope) (← names) (← limit) item t path)) :=
    Keeps.scope.bind fun _ => Keeps.names.bind fun _ => Keeps.limit.bind fun _ => keeps_following _
  unfold agree
  split
  · exact (keeps_deriveType item).bind checked
  · exact (keeps_deriveType item).bind checked
  · exact (Keeps.pure _).bind checked

/-! ## Validation -/

theorem keeps_compileItem (item : Item) : Keeps (Changes compiled P) (compileItem item) :=
  (Keeps.ofExcept _).bind fun _ => Keeps.scope.bind fun _ => Keeps.limit.bind fun _ =>
    keeps_following _

theorem keeps_validatorOf {s : Schema} (hs : compiled s) :
    Keeps (Changes compiled P) (validatorOf s) := by
  intro σ
  have asked (ids : List NodeId) : Changes compiled P σ (σ.asking ids) :=
    (Change.asks ids).changes rfl
  have run := exec_validatorOf s σ
  cases found : σ.validators.lookup s.id with
  | some v =>
    rw [run, found]
    exact refl σ
  | none =>
    cases made : (σ.workshop.scope.compile σ.settings.maxUnwrapDepth s).outcome with
    | error failure =>
      rw [run, found, made]
      exact asked _
    | ok v =>
      rw [run, found, made]
      let σ' := σ.asking (σ.workshop.scope.compile σ.settings.maxUnwrapDepth s).entered
      have added : Change compiled σ' { σ' with validators := (s.id, v) :: σ'.validators } :=
        .compiles hs found made
      exact trans_of (Changes compiled P) (asked _) (added.changes rfl)

theorem keeps_parseWith (all : ∀ s, compiled s) (item : Item) (v : Value) :
    Keeps (Changes compiled P) (parseWith item v) :=
  (Keeps.ofExcept _).bind fun s => (keeps_validatorOf (all s)).bind fun _ => .ofExcept _

/-! ## Preparation -/

section

variable {R : Session → Session → Prop} [IsPreorder Session R]

/-- Preparing a session defines schemas, makes types and declares them. -/
theorem keeps_prepare (made : ∀ t, Keeps R (makeType t))
    (frame : ∀ σ definedCount registry, R σ { σ with definedCount, registry })
    (defines : ∀ name b, Keeps R (making (Blueprint.defineAll [(name, b)])))
    (defs : List (String × Blueprint)) (types : List (String × Declaration)) :
    Keeps R (prepare defs types) := by
  have declares (name : String) (d : Declaration) : Keeps R (declare name d) := by
    cases d with
    | type t => exact (made t).bind fun _ σ => frame σ _ _
    | shape fields =>
      have fields : Keeps R (fields.foldlM (fun made field => do
          return setField field.1 (← makeType field.2) made) []) :=
        .foldlM (fun _ _ => (made _).bind fun _ => .pure _) []
      exact fields.bind fun _ => Keeps.names.bind fun _ => (Keeps.pure _).bind fun _ σ =>
        frame σ _ _
  refine Keeps.bind (.forIn (fun _ _ => (defines _ _).bind fun _ => .pure _) _) fun _ => ?_
  refine Keeps.bind (fun σ => frame σ _ _) fun _ => ?_
  exact Keeps.bind (.forIn (fun _ _ => (declares _ _).bind fun _ => .pure _) _) fun _ => .pure _

end

/-! ## Settings -/

end Session

theorem Verdict.of_toExcept_under_map {α β : Type} {v : Verdict α} {f : α → β} {step : Place}
    {b : β} (h : ((v.map f).under step).toExcept = .ok b) : ∃ a s, v = .accepted a s ∧ f a = b := by
  cases v with
  | accepted a s => exact ⟨a, s, rfl, Except.ok.inj h⟩
  | refused issues => cases h
  | failed failure => cases h

namespace Settings

variable {P : Nat → Prop} {settings settings' : Settings} {v : Value} {n : Nat}

theorem limit_of_assign (h : settings.assign Key.maxUnwrapDepth.name (.int n) = .ok settings') :
    settings'.maxUnwrapDepth = n := by
  have named : Key.ofName? Key.maxUnwrapDepth.name = some .maxUnwrapDepth := by decide
  simp only [assign, named, set] at h
  obtain ⟨m, s, checked, rfl⟩ := Verdict.of_toExcept_under_map h
  simp only [depthOf, Leaf.checkInteger, Verdict.andThen] at checked
  split at checked
  · cases checked
    rfl
  · cases checked

theorem limit_of_assign_logLevel (h : settings.assign Key.logLevel.name v = .ok settings') :
    settings'.maxUnwrapDepth = settings.maxUnwrapDepth := by
  have named : Key.ofName? Key.logLevel.name = some .logLevel := by decide
  simp only [assign, named, set] at h
  obtain ⟨level, s, checked, rfl⟩ := Verdict.of_toExcept_under_map h
  rfl

theorem limit_of_assign_richLogging (h : settings.assign Key.richLogging.name v = .ok settings') :
    settings'.maxUnwrapDepth = settings.maxUnwrapDepth := by
  have named : Key.ofName? Key.richLogging.name = some .richLogging := by decide
  simp only [assign, named, set] at h
  obtain ⟨rich, s, checked, rfl⟩ := Verdict.of_toExcept_under_map h
  rfl

/-- Assigning the given values sets no limit but such as satisfy `P`. -/
def Admits (P : Nat → Prop) (given : List (String × Value)) : Prop :=
  ∀ entry ∈ given, ∀ settings settings' : Settings,
    settings.assign entry.1 entry.2 = .ok settings' →
    P settings.maxUnwrapDepth → P settings'.maxUnwrapDepth

/-- Restoring settings restores their limit. -/
theorem admits_dump (h : P settings.maxUnwrapDepth) : Admits P settings.dump := by
  intro entry hentry before after assigned hbefore
  simp only [dump, List.mem_cons, List.not_mem_nil, or_false] at hentry
  rcases hentry with rfl | rfl | rfl
  · rwa [limit_of_assign assigned]
  · rwa [limit_of_assign_logLevel assigned]
  · rwa [limit_of_assign_richLogging assigned]

end Settings

namespace Session

theorem keeps_assignAll {given : List (String × Value)} (h : Settings.Admits P given) :
    Keeps (Changes compiled P) (assignAll given) := by
  induction given with
  | nil => exact .pure _
  | cons entry rest ih =>
    obtain ⟨name, v⟩ := entry
    have tail := ih fun entry hentry => h entry (List.mem_cons_of_mem _ hentry)
    intro σ
    rw [exec_assignAll_cons]
    cases assigned : σ.settings.assign name v with
    | error failure => exact refl σ
    | ok settings =>
      have step : Changes compiled P σ { σ with settings } := fun hP =>
        .single ⟨.assigns assigned, h _ List.mem_cons_self _ _ assigned hP⟩
      exact trans_of (Changes compiled P) step (tail { σ with settings })

/-- A relation that changes keep, to which a session in whose start the limit does not satisfy `P`
is of no interest. -/
structure Spans (compiled : Schema → Prop) (P : Nat → Prop) (R : Session → Session → Prop) :
    Prop where
  changes {σ σ' : Session} : Changes compiled P σ σ' → R σ σ'
  start {σ σ' : Session} : (P σ.settings.maxUnwrapDepth → R σ σ') → R σ σ'

theorem Spans.self : Spans compiled P (Changes compiled P) where
  changes h := h
  start h hP := h hP hP

theorem Spans.withSettings {R : Session → Session → Prop} [IsPreorder Session R]
    (spans : Spans compiled P R) {α : Type} {overrides : List (String × Value)} {body : Activity α}
    (h : Settings.Admits P overrides) (hbody : Keeps R body) :
    Keeps R (withSettings overrides body) := by
  intro σ
  refine spans.start fun hP => ?_
  have assigned {given : List (String × Value)} (h : Settings.Admits P given) :
      Keeps R (assignAll given) :=
    (keeps_assignAll h).imp fun _ _ => spans.changes
  have restored := assigned (Settings.admits_dump hP)
  unfold Session.withSettings
  rw [Stateful.exec_bind, Stateful.exec_get]
  refine (Keeps.bind (.tryCatch ?_ fun failure => ?_) fun e => ?_ : Keeps R _) σ
  · exact (assigned h).bind fun _ => hbody.bind fun a => restored.bind fun _ => .pure _
  · exact restored.bind fun _ => (Keeps.throw failure).bind fun _ => .pure _
  · cases e <;> exact .pure _

theorem keeps_configureLogger (level : Option Value) :
    Keeps (Changes compiled P) (configureLogger level) := by
  have logs (logger : Logger) :
      Keeps (Changes compiled P) (modify fun s => { s with logger } : Activity Unit) :=
    fun _ => (Change.logs logger).changes rfl
  refine Keeps.get.bind fun σ => ?_
  split
  · exact (Keeps.pure _).bind fun _ => Keeps.get.bind fun _ => (logs _).bind fun _ => .pure _
  · exact (Keeps.ofExcept _).bind fun _ => Keeps.get.bind fun _ => (logs _).bind fun _ => .pure _
  · exact (Keeps.pure _).bind fun _ => Keeps.get.bind fun _ => (logs _).bind fun _ => .pure _

theorem keeps_tally : Keeps (Changes compiled P) tally :=
  Keeps.get.bind fun _ => .pure _

end Session

/-! ## Operations and requests -/

open Session

variable {compiled : Schema → Prop} {P : Nat → Prop}

/-- An operation sets no limit but such as satisfy `P`, and all schemas may be compiled for good if
it does so. -/
def Operation.Admits (compiled : Schema → Prop) (P : Nat → Prop) : Operation → Prop
  | .assignSettings given => Settings.Admits P given
  | .parse .. | .parseAndAppend .. => ∀ s, compiled s
  | _ => True

/-- If no assignment sets a limit but such as satisfy `P`, no operation does. -/
theorem Operation.admits_of_forall (h : ∀ given, Settings.Admits P given) (op : Operation) :
    op.Admits (fun _ => True) P := by
  cases op with
  | assignSettings given => exact h given
  | parse | parseAndAppend => exact fun _ => trivial
  | _ => trivial

theorem Operation.keeps_perform (op : Operation) (h : op.Admits compiled P) :
    Keeps (Changes compiled P) op.perform := by
  -- Every operation is a sequence of activities, and the terms have the form of these sequences. Only
  -- assignments of settings and compilations for good depend on what is admitted.
  cases op with
  | readPath given =>
    cases given with
    | str s => exact (Keeps.ofExcept _).bind fun _ => (Keeps.ofExcept _).bind fun _ => .pure _
    | _ => exact .throw _
  | writePath segments =>
    exact (Keeps.ofExcept _).bind fun _ => (Keeps.ofExcept _).bind fun _ => .pure _
  | coercePath path =>
    exact (keeps_makePath _).bind fun _ => (Keeps.ofExcept _).bind fun _ => .pure _
  | buildPath steps =>
    refine (Keeps.ofExcept _).bind fun built => ?_
    cases built with
    | reference pieces => exact (Keeps.ofExcept _).bind fun _ => .pure _
    | _ => exact .pure _
  | samePath a b => exact (keeps_makePath a).bind fun _ => (keeps_makePath b).bind fun _ => .pure _
  | makeSchema schema =>
    exact (keeps_makeSchema schema _).bind fun _ => Keeps.get.bind fun _ => .pure _
  | kindOf schema => exact (keeps_makeSchema schema _).bind fun _ => .pure _
  | isTransparent kind =>
    unfold perform
    dsimp only
    split
    · exact .pure _
    · exact .throw _
  | access function schema => exact (keeps_makeItem schema).bind fun item => keeps_accessPart _ item
  | resolve schema path =>
    exact (keeps_makeItem schema).bind fun item => (keeps_makePath path).bind fun path =>
      (keeps_schemaAt item path).bind fun s => (keeps_describe s).bind fun _ => .pure _
  | walk schema segments text =>
    exact (keeps_makeItem schema).bind fun item => (Keeps.ofExcept _).bind fun pieces =>
      (keeps_walkFrom item pieces text).bind fun s => (keeps_describe s).bind fun _ => .pure _
  | sameSchema schema a b =>
    exact (keeps_makeItem schema).bind fun item =>
      (keeps_makePath a).bind fun a => (keeps_schemaAt item a).bind fun _ =>
      (keeps_makePath b).bind fun b => (keeps_schemaAt item b).bind fun _ => .pure _
  | absence schema =>
    exact (keeps_makeItem schema).bind fun item => (keeps_absenceOf item).bind fun _ => .pure _
  | compile schema =>
    exact (keeps_makeItem schema).bind fun item => (keeps_compileItem item).bind fun _ => .pure _
  | parse schema path v =>
    refine (keeps_makeItem schema).bind fun item => ?_
    cases path with
    | none =>
      exact (Keeps.pure item).bind fun item => (keeps_parseWith h item v).bind fun _ => .pure _
    | some path =>
      have found : Keeps (Changes compiled P) (do schemaAt item (← makePath path)) :=
        (keeps_makePath path).bind (keeps_schemaAt item)
      exact (found.map _).bind fun item => (keeps_parseWith h item v).bind fun _ => .pure _
  | parseAndAppend schema v target item =>
    exact (keeps_makeItem schema).bind fun made => (keeps_parseWith h made v).bind fun _ =>
      (Keeps.ofExcept _).bind fun _ => .pure _
  | typeOf schema =>
    exact (keeps_makeItem schema).bind fun item => (keeps_deriveType item).bind fun _ => .pure _
  | typeAt type path =>
    exact (keeps_makeType type).bind fun t => (keeps_makePath path).bind fun path =>
      (keeps_typeAtPath t path).bind fun _ => .pure _
  | outputAt type path =>
    exact (keeps_makeType type).bind fun t => (keeps_makePath path).bind fun path =>
      (keeps_typeAtPath t path).bind fun u => (keeps_outputOfType u).bind fun _ => .pure _
  | outputOf type =>
    exact (keeps_makeType type).bind fun t => (keeps_outputOfType t).bind fun _ => .pure _
  | sameOutput type a b =>
    exact (keeps_makeType type).bind fun t =>
      (keeps_makePath a).bind fun a => (keeps_typeAtPath t a).bind fun s =>
      (keeps_outputOfType s).bind fun _ =>
      (keeps_makePath b).bind fun b => (keeps_typeAtPath t b).bind fun u =>
      (keeps_outputOfType u).bind fun _ => .pure _
  | accessType function type =>
    exact (keeps_makeType type).bind fun t => keeps_accessTypePart function t
  | checkAgreement schema type path =>
    cases type with
    | none =>
      exact (Keeps.pure _).bind fun t => (keeps_makeItem schema).bind fun item =>
        (keeps_makePath path).bind fun path => (keeps_agree item t path).bind fun _ => .pure _
    | some type =>
      exact ((keeps_makeType type).map some).bind fun t => (keeps_makeItem schema).bind fun item =>
        (keeps_makePath path).bind fun path => (keeps_agree item t path).bind fun _ => .pure _
  | describeMissing => exact .pure _
  | readEnvironment given => exact (Keeps.ofExcept _).bind fun _ => .pure _
  | makeSettings given => exact (Keeps.ofExcept _).bind fun _ => .pure _
  | assignSettings given => exact (keeps_assignAll h).bind fun _ => Keeps.get.bind fun _ => .pure _
  | configureLogging level => exact (keeps_configureLogger level).bind fun _ => .pure _
  | renderRecord r => exact (Keeps.ofExcept _).bind fun _ => .pure _
  | emitRecord r width =>
    refine (keeps_configureLogger none).bind fun logger => ?_
    cases logger.handlers with
    | nil => exact .pure _
    | cons handler _ => exact .pure _

namespace Request

mutual

/-- A request sets no limit but such as satisfy `P`, and all schemas may be compiled for good if it
does so. -/
def Admits (compiled : Schema → Prop) (P : Nat → Prop) : Request → Prop
  | operation op => op.Admits compiled P
  | within overrides request =>
    Settings.Admits P (Settings.byName overrides) ∧ Admits compiled P request
  | inTurn requests => AdmitsAll compiled P requests

def AdmitsAll (compiled : Schema → Prop) (P : Nat → Prop) : List Request → Prop
  | [] => True
  | request :: rest => Admits compiled P request ∧ AdmitsAll compiled P rest

end

mutual

theorem admits_of_forall (h : ∀ given, Settings.Admits P given) :
    ∀ request : Request, request.Admits (fun _ => True) P
  | operation op => op.admits_of_forall h
  | within _ request => ⟨h _, admits_of_forall h request⟩
  | inTurn requests => admitsAll_of_forall h requests

theorem admitsAll_of_forall (h : ∀ given, Settings.Admits P given) :
    ∀ requests : List Request, AdmitsAll (fun _ => True) P requests
  | [] => trivial
  | request :: rest => ⟨admits_of_forall h request, admitsAll_of_forall h rest⟩

end

theorem admitsAll_true (requests : List Request) :
    AdmitsAll (fun _ => True) (fun _ => True) requests :=
  admitsAll_of_forall (fun _ _ _ _ _ _ _ => trivial) requests

section

variable {R : Session → Session → Prop} [IsPreorder Session R]

mutual

/-- What every operation keeps, every request keeps. -/
theorem keeps_of_operations (spans : Spans compiled P R) {parsed : Schema → Prop}
    (each : ∀ op : Operation, op.Admits parsed P → Keeps R op.perform) :
    ∀ request : Request, request.Admits parsed P → Keeps R request.perform
  | operation op, h => (each op h).bind fun _ => .pure _
  | within _ request, ⟨given, h⟩ =>
    spans.withSettings given (Keeps.get.bind fun _ =>
      (keeps_of_operations spans each request h).attempt.bind fun _ => .pure _)
  | inTurn requests, h => (keepsAll_of_operations spans each requests h).bind fun _ => .pure _

theorem keepsAll_of_operations (spans : Spans compiled P R) {parsed : Schema → Prop}
    (each : ∀ op : Operation, op.Admits parsed P → Keeps R op.perform) :
    ∀ requests : List Request, AdmitsAll parsed P requests → Keeps R (performAll requests)
  | [], _ => .pure _
  | request :: rest, ⟨h, hrest⟩ =>
    (keeps_of_operations spans each request h).attempt.bind fun _ =>
      Keeps.bind (keeps_tally.imp fun _ _ => spans.changes) fun _ =>
        (keepsAll_of_operations spans each rest hrest).bind fun _ => .pure _

end

end

/-- All that requests do to a session are changes. -/
theorem keeps_performAll {requests : List Request} (h : AdmitsAll compiled P requests) :
    Keeps (Changes compiled P) (performAll requests) :=
  keepsAll_of_operations .self (fun op => op.keeps_perform) requests h

end Request

end Schemata
