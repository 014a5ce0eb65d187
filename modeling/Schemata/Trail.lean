import Schemata.Failure

/-!
# Trails

A computation that may fail and that remembers, in order, which nodes it entered. What was entered
before a failure is remembered too. The trail tells which lazy schemas a computation has asked for
their targets.
-/

namespace Schemata

structure Trail (ν α : Type) where
  entered : List ν
  outcome : Except Failure α

namespace Trail

variable {ν α β γ : Type}

/-- Succeed without entering anything. -/
def done (a : α) : Trail ν α :=
  { entered := [], outcome := .ok a }

/-- Fail without entering anything. -/
def fail (failure : Failure) : Trail ν α :=
  { entered := [], outcome := .error failure }

/-- Enter `node`, which has the given outcome. -/
def enter (node : ν) (outcome : Except Failure α) : Trail ν α :=
  { entered := [node], outcome }

/-- A computation that enters nothing. -/
def lift (outcome : Except Failure α) : Trail ν α :=
  { entered := [], outcome }

/-- One computation after another. -/
def andThen (first : Trail ν α) (next : α → Trail ν β) : Trail ν β :=
  match first.outcome with
  | .ok a => { entered := first.entered ++ (next a).entered, outcome := (next a).outcome }
  | .error failure => { entered := first.entered, outcome := .error failure }

instance : Monad (Trail ν) where
  pure := done
  bind := andThen

instance : MonadExceptOf Failure (Trail ν) where
  throw := fail
  tryCatch t handle :=
    match t.outcome with
    | .ok _ => t
    | .error failure =>
      { entered := t.entered ++ (handle failure).entered, outcome := (handle failure).outcome }

/-- Turn the failures that `isCaught` names into a result. -/
def attempt (isCaught : Failure → Bool) (t : Trail ν α) : Trail ν (Except Failure α) :=
  { entered := t.entered
    outcome := match t.outcome with
      | .ok a => .ok (.ok a)
      | .error failure => if isCaught failure then .ok (.error failure) else .error failure }

/-- Remember only the entered nodes that `f` names. -/
def filterMap {μ : Type} (f : ν → Option μ) (t : Trail ν α) : Trail μ α :=
  { entered := t.entered.filterMap f, outcome := t.outcome }

-- ---------------------------------------------------------------------------
-- Laws
-- ---------------------------------------------------------------------------

section

variable (node : ν) (outcome : Except Failure α) (failure : Failure) (a : α)

@[simp] theorem entered_pure : (pure a : Trail ν α).entered = [] := rfl

@[simp] theorem outcome_pure : (pure a : Trail ν α).outcome = .ok a := rfl

@[simp] theorem entered_fail : (fail failure : Trail ν α).entered = [] := rfl

@[simp] theorem outcome_fail : (fail failure : Trail ν α).outcome = .error failure := rfl

@[simp] theorem entered_lift : (lift outcome : Trail ν α).entered = [] := rfl

@[simp] theorem outcome_lift : (lift outcome : Trail ν α).outcome = outcome := rfl

@[simp] theorem entered_enter : (enter node outcome).entered = [node] := rfl

@[simp] theorem outcome_enter : (enter node outcome).outcome = outcome := rfl

end

/-- What a sequence enters depends on whether its first part succeeds. -/
@[simp] theorem entered_bind (t : Trail ν α) (f : α → Trail ν β) :
    (t >>= f).entered = match t.outcome with
      | .ok a => t.entered ++ (f a).entered
      | .error _ => t.entered := by
  cases h : t.outcome <;> simp [bind, andThen, h]

/-- A sequence enters no more than its two parts may. -/
theorem length_entered_bind {t : Trail ν α} {f : α → Trail ν β} {m n : Nat}
    (ht : t.entered.length ≤ m) (hf : ∀ a, (f a).entered.length ≤ n) :
    (t >>= f).entered.length ≤ m + n := by
  rw [entered_bind]
  split
  · rw [List.length_append]
    exact Nat.add_le_add ht (hf _)
  · exact Nat.le_add_right_of_le ht

/-- Outcomes follow one another as if nothing was remembered. -/
@[simp] theorem outcome_bind (t : Trail ν α) (f : α → Trail ν β) :
    (t >>= f).outcome = match t.outcome with
      | .ok a => (f a).outcome
      | .error failure => .error failure := by
  cases h : t.outcome <;> simp [bind, andThen, h]

theorem bind_of_ok {t : Trail ν α} {a : α} (h : t.outcome = .ok a) (f : α → Trail ν β) :
    t >>= f = { entered := t.entered ++ (f a).entered, outcome := (f a).outcome } := by
  simp only [bind, andThen, h]

theorem bind_of_error {t : Trail ν α} {failure : Failure} (h : t.outcome = .error failure)
    (f : α → Trail ν β) :
    t >>= f = { entered := t.entered, outcome := .error failure } := by
  simp only [bind, andThen, h]

theorem exists_of_outcome_bind {t : Trail ν α} {f : α → Trail ν β} {b : β}
    (h : (t >>= f).outcome = .ok b) : ∃ a, t.outcome = .ok a ∧ (f a).outcome = .ok b := by
  rw [outcome_bind] at h
  split at h
  · exact ⟨_, ‹_›, h⟩
  · cases h

@[ext] theorem ext {s t : Trail ν α} (he : s.entered = t.entered) (ho : s.outcome = t.outcome) :
    s = t := by
  cases s; cases t; simp_all

instance : LawfulMonad (Trail ν) := LawfulMonad.mk' (Trail ν)
  (by
    rintro α ⟨entered, _ | a⟩ <;>
      simp [Functor.map, andThen, done])
  (by
    intro α β a f
    simp [bind, pure, andThen, done])
  (by
    rintro α β γ ⟨entered, _ | a⟩ f g
    · simp [bind, andThen]
    · simp only [bind, andThen]
      cases h : (f a).outcome <;> simp)

@[simp] theorem entered_map (f : α → β) (t : Trail ν α) : (f <$> t).entered = t.entered := by
  rw [← bind_pure_comp, entered_bind]
  cases t.outcome <;> simp

@[simp] theorem outcome_map (f : α → β) (t : Trail ν α) : (f <$> t).outcome = t.outcome.map f := by
  rw [← bind_pure_comp, outcome_bind]
  cases t.outcome <;> rfl

end Trail

end Schemata
