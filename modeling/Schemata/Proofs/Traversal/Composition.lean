import Schemata.Proofs.Traversal.Moves

/-!
# Composition of walks

Segments one after another are walked one after another. The path text shows in failures alone, so a
walk under another text goes the same way and fails alike, for that text.
-/

namespace Schemata

/-- A failure as it is reported for the path `path`. -/
def Failure.along (path : String) : Failure → Failure
  | .resolution _ obstacle => .resolution path obstacle
  | failure => failure

namespace Trail

variable {ν α β : Type}

/-- The same trail with other failures. -/
def mapFailure (f : Failure → Failure) (t : Trail ν α) : Trail ν α :=
  { t with outcome := t.outcome.mapError f }

@[simp] theorem entered_mapFailure (f : Failure → Failure) (t : Trail ν α) :
    (t.mapFailure f).entered = t.entered := rfl

@[simp] theorem outcome_mapFailure (f : Failure → Failure) (t : Trail ν α) :
    (t.mapFailure f).outcome = t.outcome.mapError f := rfl

@[simp] theorem mapFailure_lift (f : Failure → Failure) (x : Except Failure α) :
    (lift x : Trail ν α).mapFailure f = lift (x.mapError f) := rfl

@[simp] theorem mapFailure_enter (f : Failure → Failure) (node : ν) (x : Except Failure α) :
    (enter node x).mapFailure f = enter node (x.mapError f) := rfl

@[simp] theorem mapFailure_bind (f : Failure → Failure) (t : Trail ν α) (next : α → Trail ν β) :
    (t >>= next).mapFailure f = t.mapFailure f >>= fun a => (next a).mapFailure f := by
  obtain ⟨entered, _ | a⟩ := t <;> rfl

end Trail

namespace View

variable {ν : Type} (V : View ν)

@[simp] theorem walk_append (limit : Nat) (path : String) (root : ν) (ps qs : List Segment) :
    V.walk limit path root (ps ++ qs)
      = V.walk limit path root ps >>= fun m => V.walk limit path m qs := by
  simp [walk, List.foldlM_append]

/-- No failure at a node depends on the path, but for the text that it is reported for. -/
structure Pathless (V : View ν) : Prop where
  inner (path : String) {node : ν} : (V.kind node).isTransparent = true →
    (V.inner node).mapError (.along path) = V.inner node
  child (path path' : String) (node : ν) (segment : Segment) :
    V.child path' node segment = (V.child path node segment).mapError (.along path')

namespace Pathless

variable {V : View ν}

theorem unwrapWithin_along (h : V.Pathless) (path : String) (exceeded : Failure) (budget : Nat)
    (node : ν) :
    V.unwrapWithin (exceeded.along path) budget node
      = (V.unwrapWithin exceeded budget node).mapFailure (.along path) := by
  induction budget generalizing node with
  | zero =>
    rw [unwrapWithin, unwrapWithin]
    split <;> rfl
  | succ budget ih =>
    rw [unwrapWithin, unwrapWithin]
    split
    · next transparent => simp [h.inner path transparent, ih]
    · rfl

theorem step_along (h : V.Pathless) (limit : Nat) (path path' : String) (node : ν)
    (segment : Segment) :
    V.step limit path' node segment
      = (V.step limit path node segment).mapFailure (.along path') := by
  have unwrapped : V.unwrap limit path' node
      = (V.unwrap limit path node).mapFailure (.along path') :=
    h.unwrapWithin_along path' (.resolution path (.unwrapLimit limit)) limit node
  simp [View.step, unwrapped, h.child path path']

/-- A walk under another path text goes the same way. -/
theorem walk_along (h : V.Pathless) (limit : Nat) (path path' : String) (node : ν)
    (segments : List Segment) :
    V.walk limit path' node segments
      = (V.walk limit path node segments).mapFailure (.along path') := by
  induction segments generalizing node with
  | nil => rfl
  | cons segment rest ih =>
    have rests : (fun m => rest.foldlM (V.step limit path') m)
        = fun m => (rest.foldlM (V.step limit path) m).mapFailure (.along path') :=
      funext ih
    simp [View.walk, rests, h.step_along limit path path']

end Pathless

end View

namespace Scope

variable (scope : Scope)

/-- A lazy schema without a target fails whatever the path. -/
theorem along_target {id : NodeId} {failure : Failure} (h : scope.target id = .error failure)
    (path : String) : failure.along path = failure := by
  unfold target at h
  split at h
  · cases h
    rfl
  next getter _ =>
    cases getter with
    | fails text =>
      cases h
      rfl
    | value v =>
      cases h
      rfl
    | named name =>
      simp only [run] at h
      generalize (scope.lookup? name).getD (.value .none) = item at h
      cases item with
      | schema s => cases h
      | value v =>
        cases h
        rfl

/-- What stands behind a wrapper fails whatever the path. -/
theorem inner_along {s : Schema} (h : s.isWrapper = true) (path : String) :
    (scope.view.inner s).mapError (.along path) = scope.view.inner s := by
  rcases scope.opens_or_target_error h with ⟨t, opens⟩ | ⟨id, failure, rfl, found⟩
  · rw [opens.innerOf]
    rfl
  · have inner : scope.view.inner (.lazy id) = .error failure := found
    rw [inner]
    exact congrArg Except.error (scope.along_target found path)

theorem pathless : scope.view.Pathless where
  inner path s transparent := by
    refine scope.inner_along ?_ path
    rw [← Schema.isTransparent_kind]
    exact transparent
  child path path' s segment := by
    rcases s.hasChild_or_lacks segment with ⟨t, child⟩ | ⟨obstacle, lacks⟩
    · rw [child.child scope path', child.child scope path]
      rfl
    · rw [lacks.child scope path', lacks.child scope path]
      rfl

end Scope

end Schemata
