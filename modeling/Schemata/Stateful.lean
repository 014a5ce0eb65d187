import Schemata.Failure

/-!
# Stateful computations

A computation that may fail and that changes a state. What it did to the state before a failure is
not undone.
-/

namespace Schemata

abbrev Stateful (σ : Type) := ExceptT Failure (StateM σ)

namespace Stateful

variable {σ α β : Type} {s s' : σ}

/-- Run a computation from a state. -/
def exec (m : Stateful σ α) (s : σ) : Except Failure α × σ :=
  m.run.run s

@[simp] theorem exec_pure (a : α) (s : σ) : (pure a : Stateful σ α).exec s = (.ok a, s) := rfl

@[simp] theorem exec_throw (failure : Failure) (s : σ) :
    (throw failure : Stateful σ α).exec s = (.error failure, s) := rfl

@[simp] theorem exec_get (s : σ) : (get : Stateful σ σ).exec s = (.ok s, s) := rfl

@[simp] theorem exec_set (s s' : σ) : (set s' : Stateful σ PUnit).exec s = (.ok ⟨⟩, s') := rfl

@[simp] theorem exec_modify (f : σ → σ) (s : σ) :
    (modify f : Stateful σ PUnit).exec s = (.ok ⟨⟩, f s) := rfl

@[simp] theorem exec_ofExcept (x : Except Failure α) (s : σ) :
    (ofExcept x : Stateful σ α).exec s = (x, s) := by
  cases x <;> rfl

/-- What comes second runs from where the first part arrived. -/
@[simp] theorem exec_bind (m : Stateful σ α) (f : α → Stateful σ β) (s : σ) :
    (m >>= f).exec s = match m.exec s with
      | (.ok a, s') => (f a).exec s'
      | (.error failure, s') => (.error failure, s') := by
  simp only [exec, ExceptT.run_bind, StateT.run_bind]
  rcases StateT.run (ExceptT.run m) s with ⟨_ | _, _⟩ <;> rfl

@[simp] theorem exec_map (f : α → β) (m : Stateful σ α) (s : σ) :
    (f <$> m).exec s = match m.exec s with
      | (.ok a, s') => (.ok (f a), s')
      | (.error failure, s') => (.error failure, s') := by
  rw [map_eq_pure_bind, exec_bind]
  rfl

/-- What handles a failure runs from where it happened. -/
@[simp] theorem exec_tryCatch (m : Stateful σ α) (handle : Failure → Stateful σ α) (s : σ) :
    (tryCatch m handle).exec s = match m.exec s with
      | (.ok a, s') => (.ok a, s')
      | (.error failure, s') => (handle failure).exec s' := by
  simp only [exec, tryCatch, tryCatchThe, MonadExceptOf.tryCatch, ExceptT.tryCatch,
    ExceptT.run_mk, StateT.run_bind]
  rcases hm : StateT.run (ExceptT.run m) s with ⟨_ | _, _⟩ <;>
    · rw [show StateT.run m s = _ from hm]
      rfl

/-- A sequence succeeds if both of its parts do. -/
theorem exec_bind_eq_ok {m : Stateful σ α} {f : α → Stateful σ β} {b : β}
    (h : (m >>= f).exec s = (.ok b, s')) :
    ∃ a mid, m.exec s = (.ok a, mid) ∧ (f a).exec mid = (.ok b, s') := by
  rw [exec_bind] at h
  split at h
  · exact ⟨_, _, ‹_›, h⟩
  · cases h

theorem exec_bind_ok {m : Stateful σ α} {a : α} (h : m.exec s = (.ok a, s'))
    (f : α → Stateful σ β) : (m >>= f).exec s = (f a).exec s' := by
  simp [h]

theorem exec_bind_error {m : Stateful σ α} {failure : Failure}
    (h : m.exec s = (.error failure, s')) (f : α → Stateful σ β) :
    (m >>= f).exec s = (.error failure, s') := by
  simp [h]

end Stateful

end Schemata
