import Mathlib
import Schemata.Proofs.Session.Changes
import Schemata.Proofs.Validation.Checks

/-!
# Settings that are restored

Whatever is assigned, settings are valid, and an assignment of valid settings is never rejected. So
the settings from before a block can always be restored behind it: no matter how many of its
overrides were accepted, what its body assigned, and how the body ended.
-/

namespace Schemata

namespace Settings

variable {settings settings' : Settings} {name : String} {v : Value}

/-- A positive limit, and a level with one of the five names. -/
structure Valid (settings : Settings) : Prop where
  depth : 0 < settings.maxUnwrapDepth
  level : settings.logLevel.name ∈ ["DEBUG", "INFO", "WARNING", "ERROR", "CRITICAL"]

theorem valid_of_depth (h : 0 < settings.maxUnwrapDepth) : settings.Valid where
  depth := h
  level := by cases settings.logLevel <;> decide

theorem valid_initial : initial.Valid :=
  valid_of_depth (by decide)

/-! ## Making settings -/

theorem pos_of_depthOf {n : Nat} {st : Standing} (h : depthOf v = .accepted n st) : 0 < n := by
  unfold depthOf at h
  obtain ⟨result, st', _, h⟩ := Verdict.andThen_eq_accepted_iff.mp h
  split at h
  · split at h
    · next positive =>
      cases h
      exact Int.pos_iff_toNat_pos.mp positive
    · cases h
  · cases h

theorem valid_of_set {key : Key} {st : Standing} (h : settings.set key v = .accepted settings' st)
    (valid : settings.Valid) : settings'.Valid := by
  have made := congrArg Verdict.toExcept h
  cases key with
  | maxUnwrapDepth =>
    obtain ⟨n, _, checked, rfl⟩ := Verdict.of_toExcept_under_map made
    exact valid_of_depth (pos_of_depthOf checked)
  | logLevel =>
    obtain ⟨level, _, _, rfl⟩ := Verdict.of_toExcept_under_map made
    exact valid_of_depth valid.depth
  | richLogging =>
    obtain ⟨rich, _, _, rfl⟩ := Verdict.of_toExcept_under_map made
    exact valid_of_depth valid.depth

theorem valid_of_setAll {given : List (String × Value)} {keys : List Key} {st : Standing}
    (h : setAll given settings keys = .accepted settings' st) (valid : settings.Valid) :
    settings'.Valid := by
  induction keys generalizing settings with
  | nil =>
    cases h
    exact valid
  | cons key rest ih =>
    rw [setAll] at h
    split at h
    · exact ih h valid
    · split at h
      · next made => exact ih h (valid_of_set made valid)
      · split at h <;> cases h
      · cases h

theorem valid_of_make {given : List (String × Value)} (h : make given = .ok settings) :
    settings.Valid := by
  unfold make at h
  split at h
  · next made _ =>
    cases h
    exact valid_of_setAll made valid_initial
  all_goals cases h

theorem valid_of_ofEnvironment {given : List (Key × String)}
    (h : ofEnvironment given = .ok settings) : settings.Valid := by
  unfold ofEnvironment at h
  simp only [bind, Except.bind] at h
  split at h
  · cases h
  · split at h
    · next made =>
      cases h
      exact valid_of_make made
    all_goals cases h

/-! ## Assigning settings -/

theorem valid_of_assign (h : settings.assign name v = .ok settings') (valid : settings.Valid) :
    settings'.Valid := by
  unfold assign at h
  split at h
  · obtain ⟨st, accepted⟩ := Verdict.toExcept_eq_ok_iff.mp h
    exact valid_of_set accepted valid
  · cases h

theorem assign_depth {n : Nat} (h : 0 < n) (settings : Settings) :
    settings.assign Key.maxUnwrapDepth.name (.int n) = .ok { settings with maxUnwrapDepth := n } := by
  have named : Key.ofName? Key.maxUnwrapDepth.name = some .maxUnwrapDepth := by decide
  have read : depthOf (.int n) = .accepted n .initial := by
    simp only [depthOf, Leaf.checkInteger, Verdict.andThen, Int.natCast_pos.mpr h, if_true,
      Int.toNat_natCast]
  simp only [assign, named, set, read]
  rfl

@[simp] theorem assign_level (level : Level) (settings : Settings) :
    settings.assign Key.logLevel.name (.str level.name) = .ok { settings with logLevel := level } := by
  cases level <;> rfl

@[simp] theorem assign_flag (b : Bool) (settings : Settings) :
    settings.assign Key.richLogging.name (.bool b) = .ok { settings with richLogging := b } := by
  cases b <;> rfl

end Settings

namespace Session

variable {σ σ' : Session} {overrides : List (String × Value)}

/-! ## Blocks -/

/-- Valid settings can be assigned one by one, whatever the settings are. -/
theorem exec_assignAll_dump {settings : Settings} (valid : settings.Valid) (σ : Session) :
    (assignAll settings.dump).exec σ = (.ok (), { σ with settings }) := by
  simp [Settings.dump, Settings.assign_depth valid.depth]

/-- A block comes to what its overrides and its body come to, but with the settings from before. -/
theorem exec_withSettings {α : Type} (valid : σ.settings.Valid) (body : Activity α) :
    (withSettings overrides body).exec σ =
      let run := (assignAll overrides >>= fun _ => body).exec σ
      (run.1, { run.2 with settings := σ.settings }) := by
  have restored (σ' : Session) :
      (assignAll σ.settings.dump).exec σ' = (.ok (), { σ' with settings := σ.settings }) :=
    exec_assignAll_dump valid σ'
  unfold withSettings
  rcases assigned : (assignAll overrides).exec σ with ⟨failure | _, σ₁⟩
  · simp [assigned, restored]
  · rcases ran : body.exec σ₁ with ⟨failure | a, σ₂⟩
    · simp [assigned, ran, restored]
    · simp only [Stateful.exec_bind, Stateful.exec_tryCatch, Stateful.exec_get, assigned, ran,
        restored]
      -- the body returns out of the block
      rfl

/-! ## Valid settings -/

/-- Valid settings stay valid. -/
def StaysValid (σ σ' : Session) : Prop :=
  σ.settings.Valid → σ'.settings.Valid

instance : IsPreorder Session StaysValid where
  refl _ valid := valid
  trans _ _ _ h h' valid := h' (h valid)

theorem stays_assignAll (given : List (String × Value)) : Keeps StaysValid (assignAll given) := by
  induction given with
  | nil => exact .pure _
  | cons entry rest ih =>
    intro σ valid
    rw [exec_assignAll_cons]
    cases assigned : σ.settings.assign entry.1 entry.2 with
    | error failure => exact valid
    | ok settings => exact ih _ (Settings.valid_of_assign assigned valid)

theorem stays_withSettings {α : Type} (overrides : List (String × Value)) (body : Activity α) :
    Keeps StaysValid (withSettings overrides body) := by
  intro σ valid
  rw [exec_withSettings valid]
  exact valid

/-! ## Scripts -/

/-- Assignments of settings and blocks among other requests, one after another and inside one another.
Each may fail, and failures may be caught. -/
inductive Script where
  | done
  | request (request : Request)
  | assign (name : String) (v : Value)
  | fail (failure : Failure)
  | andThen (first second : Script)
  | rescue (body : Script)
  | within (overrides : List (String × Value)) (body : Script)

namespace Script

def perform : Script → Activity Unit
  | done => return ()
  | request r => do
    let _ ← r.perform
  | assign name v => assignAll [(name, v)]
  | fail failure => throw failure
  | andThen first second => do
    first.perform
    second.perform
  | rescue body => do
    let _ ← attempt body.perform
  | within overrides body => withSettings overrides body.perform

/-- The sessions that are met while a script is performed, at its start and its end, between its parts
and inside them. A block also meets a session after each of its overrides, and after each of the
settings that it restores. -/
inductive Visits : Script → Session → Session → Prop
  | start {script : Script} {σ : Session} : Visits script σ σ
  | finish {script : Script} {σ : Session} : Visits script σ (script.perform.exec σ).2
  | first {a b : Script} {σ σ' : Session} : Visits a σ σ' → Visits (andThen a b) σ σ'
  | second {a b : Script} {σ σ₁ σ' : Session} : a.perform.exec σ = (.ok (), σ₁) → Visits b σ₁ σ' →
    Visits (andThen a b) σ σ'
  | rescued {body : Script} {σ σ' : Session} : Visits body σ σ' → Visits (rescue body) σ σ'
  | overriding {given rest : List (String × Value)} {body : Script} {σ : Session} :
    Visits (within (given ++ rest) body) σ ((assignAll given).exec σ).2
  | inside {overrides : List (String × Value)} {body : Script} {σ σ₁ σ' : Session} :
    (assignAll overrides).exec σ = (.ok (), σ₁) → Visits body σ₁ σ' →
    Visits (within overrides body) σ σ'
  | restoring {overrides given rest : List (String × Value)} {body : Script} {σ σ₁ : Session}
      {outcome : Except Failure Unit} :
    (assignAll overrides >>= fun _ => body.perform).exec σ = (outcome, σ₁) →
    σ.settings.dump = given ++ rest →
    Visits (within overrides body) σ ((assignAll given).exec σ₁).2

theorem stays_request (r : Request) : Keeps StaysValid r.perform := by
  have positive (given : List (String × Value)) : Settings.Admits (0 < ·) given := by
    intro entry _ settings settings' assigned hpos
    exact (Settings.valid_of_assign assigned (Settings.valid_of_depth hpos)).depth
  intro σ valid
  have changes : Changes (fun _ => True) (0 < ·) σ (r.perform.exec σ).2 :=
    r.keeps_of_operations .self (fun op => op.keeps_perform) (r.admits_of_forall positive) σ
  exact Settings.valid_of_depth (changes.limit valid.depth)

theorem stays_perform (script : Script) : Keeps StaysValid script.perform := by
  induction script with
  | done => exact .pure ()
  | request r => exact (stays_request r).bind fun _ => .pure ()
  | assign name v => exact stays_assignAll _
  | fail failure => exact .throw failure
  | andThen first second ihFirst ihSecond => exact ihFirst.bind fun _ => ihSecond
  | rescue body ih => exact ih.attempt.bind fun _ => .pure ()
  | within overrides body _ => exact stays_withSettings overrides body.perform

theorem Visits.valid {script : Script} (h : script.Visits σ σ') : StaysValid σ σ' := by
  induction h with
  | start => exact refl _
  | finish => exact stays_perform _ _
  | first _ ih => exact ih
  | @second a _ σ _ _ ran _ ih =>
    have left := stays_perform a σ
    rw [ran] at left
    exact trans_of StaysValid left ih
  | rescued _ ih => exact ih
  | overriding => exact stays_assignAll _ _
  | @inside overrides _ σ _ _ assigned _ ih =>
    have left := stays_assignAll overrides σ
    rw [assigned] at left
    exact trans_of StaysValid left ih
  | @restoring overrides given _ body σ σ₁ _ ran _ =>
    have left := (stays_assignAll overrides).bind (fun _ => body.stays_perform) σ
    rw [ran] at left
    exact trans_of StaysValid left (stays_assignAll given σ₁)

/-- Settings are valid at all times, and blocks restore them. Whatever is done from settings that were
made from the environment, in each session that is met on the way the limit is positive and the level
has one of the five names, an assignment that is rejected changes nothing, and a block comes to what
its overrides and its body come to, a failure included, but with all settings as they were before. -/
theorem settings_valid_and_restored {environment : List (Settings.Key × String)} {script : Script}
    (made : Settings.ofEnvironment environment = .ok σ.settings) (visits : script.Visits σ σ') :
    σ'.settings.Valid ∧
    (∀ name v failure, σ'.settings.assign name v = .error failure →
      (assign name v).perform.exec σ' = (.error failure, σ')) ∧
    ∀ (α : Type) (overrides : List (String × Value)) (body : Activity α),
      (withSettings overrides body).exec σ' =
        let run := (assignAll overrides >>= fun _ => body).exec σ'
        (run.1, { run.2 with settings := σ'.settings }) := by
  have valid : σ'.settings.Valid := visits.valid (Settings.valid_of_ofEnvironment made)
  refine ⟨valid, fun name v failure rejected => ?_, fun α overrides body => ?_⟩
  · rw [perform, exec_assignAll_cons, rejected]
  · exact exec_withSettings valid body

/-- A block whose second override is rejected. -/
def noisy : Script :=
  .within [("max_unwrap_depth", .int 3), ("log_level", .str "NOISY")] .done

/-- The limit has changed when the level is rejected, and the limit from before is restored. -/
theorem settings_valid_and_restored_noisy :
    ((assignAll [("max_unwrap_depth", .int 3)]).exec Session.initial).2.settings.maxUnwrapDepth = 3 ∧
    ((assignAll [("max_unwrap_depth", .int 3)]).exec Session.initial).2.settings.Valid ∧
    (noisy.perform.exec Session.initial).1.isOk = false ∧
    (noisy.perform.exec Session.initial).2.settings = .initial := by
  have made : Settings.ofEnvironment [] = .ok Session.initial.settings := by cbv
  have visited : (Script.within ([("max_unwrap_depth", .int 3)] ++ [("log_level", .str "NOISY")])
      .done).Visits Session.initial
        ((assignAll [("max_unwrap_depth", .int 3)]).exec Session.initial).2 := .overriding
  have restored := (settings_valid_and_restored made (.start : noisy.Visits _ _)).2.2 Unit
  refine ⟨by cbv, (settings_valid_and_restored made visited).1, ?_, ?_⟩
  · rw [noisy, perform, restored]
    cbv
  · rw [noisy, perform, restored]
    rfl

end Script

end Session

end Schemata
