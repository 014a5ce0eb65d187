import Schemata.Proofs.Traversal.Simulation

/-!
# Lock-step

Two views in lock-step look the same at related nodes and lead to related children, and neither of
them ever loses its way. Then every walk over the one goes in step with the walk over the other: the
two enter related wrappers, one by one, and arrive at related nodes or fail alike.
-/

namespace Schemata

variable {ν μ : Type} {R S : ν → μ → Prop}

namespace Trail.InStep

variable {x : Trail ν ν} {y : Trail μ μ} {f : ν → Trail ν ν} {g : μ → Trail μ μ}

theorem pure {a : ν} {b : μ} (h : R a b) : InStep R (Pure.pure a) (Pure.pure b) :=
  ⟨.nil, .ok h⟩

theorem fail (failure : Failure) : InStep R (.fail failure) (.fail failure) :=
  ⟨.nil, .error failure⟩

theorem lift {x : Except Failure ν} {y : Except Failure μ} (h : Related R x y) :
    InStep R (.lift x) (.lift y) :=
  ⟨.nil, h⟩

/-- What follows has to be in step only from where the first parts arrive. -/
theorem bind (h : InStep R x y)
    (hfg : ∀ a b, x.outcome = .ok a → y.outcome = .ok b → R a b → InStep R (f a) (g b)) :
    InStep R (x >>= f) (y >>= g) := by
  obtain ⟨entered, outcome⟩ := h
  obtain ⟨before, _ | a⟩ := x <;> obtain ⟨before', _ | b⟩ := y <;> cases outcome
  case error.error => exact ⟨entered, .error _⟩
  case ok.ok hab =>
    have rest := hfg a b rfl rfl hab
    rw [bind_of_ok rfl, bind_of_ok rfl]
    exact ⟨List.rel_append entered rest.entered, rest.outcome⟩

theorem mono (h : InStep R x y) (hRS : ∀ a b, R a b → S a b) : InStep S x y :=
  ⟨h.entered.imp hRS, h.outcome.mono hRS⟩

end Trail.InStep

namespace View

/-- Related nodes have the same kind and, where a traversal reads them, related children: an inner
node, the same properties, an element, a value, and as many items or options. What reading a child
fails for, it fails for in both. -/
structure Lockstep (V : View ν) (W : View μ) (R : ν → μ → Prop) : Prop where
  kind {a : ν} {b : μ} : R a b → V.kind a = W.kind b
  inner {a : ν} {b : μ} : R a b → (V.kind a).isTransparent = true →
    Related R (V.inner a) (W.inner b)
  property {a : ν} {b : μ} (name : String) : R a b → V.kind a = .object →
    Related (Option.Rel R) (V.property? a name) (W.property? b name)
  element {a : ν} {b : μ} : R a b → V.kind a = .array → Related R (V.element a) (W.element b)
  value {a : ν} {b : μ} : R a b → V.kind a = .record → Related R (V.value a) (W.value b)
  items {a : ν} {b : μ} : R a b → V.kind a = .tuple →
    Related (List.Forall₂ R) (V.items a) (W.items b)
  options {a : ν} {b : μ} : R a b → V.kind a = .union →
    Related (List.Forall₂ R) (V.options a) (W.options b)

namespace Lockstep

variable {V : View ν} {W : View μ} {a : ν} {b : μ}

/-- A simulation in which no node is lost. -/
theorem simulation (h : V.Lockstep W R) : Simulation V W R fun _ => False where
  kind := h.kind
  inner hab transparent _ := h.inner hab transparent
  lost _ impossible := impossible.elim
  property := h.property
  element := h.element
  value := h.value
  items := h.items
  options := h.options

theorem unwrap (h : V.Lockstep W R) (limit : Nat) (path : String) (hab : R a b) :
    Trail.InStep R (V.unwrap limit path a) (W.unwrap limit path b) := by
  rcases h.simulation.unwrapWithin (.resolution path (.unwrapLimit limit)) limit hab with
    ⟨_, inStep⟩ | ⟨⟨_, _, impossible⟩, _⟩
  · exact inStep
  · exact impossible.elim

theorem step (h : V.Lockstep W R) (limit : Nat) (path : String) (segment : Segment) (hab : R a b) :
    Trail.InStep R (V.step limit path a segment) (W.step limit path b segment) := by
  apply (h.unwrap limit path hab).bind
  intro u w _ _ huw
  exact .lift (h.simulation.child path segment huw)

/-- What is no segment is noticed behind the same wrappers, for the same reason. -/
theorem stepPiece (h : V.Lockstep W R) (limit : Nat) (path : String) (piece : Piece)
    (hab : R a b) : Trail.InStep R (V.stepPiece limit path a piece) (W.stepPiece limit path b piece) := by
  cases piece with
  | segment segment => exact h.step limit path segment hab
  | keyed key =>
    apply (h.unwrap limit path hab).bind
    intro u w _ _ huw
    rw [h.kind huw]
    split
    · split <;> exact .fail _
    · exact .fail _
  | other v =>
    apply (h.unwrap limit path hab).bind
    intro _ _ _ _ _
    exact .fail _

/-- Walks from related nodes go in step along whatever is given as a path. -/
theorem walkPieces (h : V.Lockstep W R) (limit : Nat) (path : String) (pieces : List Piece)
    (hab : R a b) :
    Trail.InStep R (V.walkPieces limit path a pieces) (W.walkPieces limit path b pieces) := by
  induction pieces generalizing a b with
  | nil => exact .pure hab
  | cons piece rest ih =>
    simp only [View.walkPieces, List.foldlM_cons]
    apply (h.stepPiece limit path piece hab).bind
    intro c d _ _ hcd
    exact ih hcd

theorem walk (h : V.Lockstep W R) (limit : Nat) (path : String) (segments : List Segment)
    (hab : R a b) :
    Trail.InStep R (V.walk limit path a segments) (W.walk limit path b segments) := by
  simpa only [View.walkPieces_map_segment] using
    h.walkPieces limit path (segments.map .segment) hab

end Lockstep

end View

end Schemata
