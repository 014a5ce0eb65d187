import Schemata.Proofs.Mirror.Paths
import Schemata.Proofs.Traversal.Entered

/-!
# Walks under different limits

The limit matters for a walk only where it stops the walk: a walk that it does not stop is the same
one under every greater limit. What it stops is the first step from a node with more wrappers in a
row than the limit allows, so wrappers in a circle are not followed for ever.
-/

namespace Schemata

/-- What fails alike for every path is no failure of a path. -/
theorem ne_resolution_of_along {α : Type} {x : Except Failure α} (path : String)
    (obstacle : Obstacle) (h : ∀ path', x.mapError (.along path') = x) :
    x ≠ .error (.resolution path obstacle) := by
  rintro rfl
  -- A failure of a path names it, and no path is one character longer than itself.
  have longer : path ++ "." = path := (Failure.resolution.inj (Except.error.inj (h (path ++ ".")))).1
  have length := congrArg String.length longer
  rw [String.length_append] at length
  exact absurd length (Nat.ne_of_gt (Nat.lt_succ_self _))

namespace View

variable {ν : Type} {V : View ν} {limit low high budget n : Nat} {path p : String}
  {node next w root : ν} {wrappers : List ν} {segment : Segment}
  {before after segments : List Segment} {exceeded : Failure}

/-! ## Wrappers in a row -/

/-- The wrappers `wrappers` stand in a row from `node` on, and `w` stands behind the last of them. -/
inductive Chain (V : View ν) : ν → List ν → ν → Prop
  | nil {node : ν} : Chain V node [] node
  | cons {node next w : ν} {wrappers : List ν} : (V.kind node).isTransparent = true →
    V.inner node = .ok next → Chain V next wrappers w → Chain V node (node :: wrappers) w

/-- More than `limit` wrappers stand in a row from `node` on, and `wrappers` are the first `limit` of
them. -/
def Overlong (V : View ν) (limit : Nat) (node : ν) (wrappers : List ν) : Prop :=
  ∃ w, V.Chain node wrappers w ∧ wrappers.length = limit ∧ (V.kind w).isTransparent = true

theorem unwrapWithin_of_inner_ok (transparent : (V.kind node).isTransparent = true)
    (opened : V.inner node = .ok next) (exceeded : Failure) (budget : Nat) :
    V.unwrapWithin exceeded (budget + 1) node =
      { entered := node :: (V.unwrapWithin exceeded budget next).entered
        outcome := (V.unwrapWithin exceeded budget next).outcome } := by
  ext <;> simp [transparent, opened]

theorem unwrapWithin_of_inner_error {failure : Failure}
    (transparent : (V.kind node).isTransparent = true) (stuck : V.inner node = .error failure)
    (exceeded : Failure) (budget : Nat) :
    V.unwrapWithin exceeded (budget + 1) node =
      { entered := [node], outcome := .error failure } := by
  ext <;> simp [transparent, stuck]

/-- Unwrapping enters the wrappers in a row and goes on behind them. -/
theorem Chain.unwrapWithin (h : V.Chain node wrappers w) (exceeded : Failure) (budget : Nat) :
    V.unwrapWithin exceeded (wrappers.length + budget) node =
      { entered := wrappers ++ (V.unwrapWithin exceeded budget w).entered
        outcome := (V.unwrapWithin exceeded budget w).outcome } := by
  induction h with
  | nil => rw [List.length_nil, Nat.zero_add, List.nil_append]
  | cons transparent opened _ ih =>
    rw [List.length_cons, Nat.add_right_comm, unwrapWithin_of_inner_ok transparent opened, ih]
    rfl

theorem Overlong.unwrapWithin (h : V.Overlong budget node wrappers) (exceeded : Failure) :
    V.unwrapWithin exceeded budget node = { entered := wrappers, outcome := .error exceeded } := by
  obtain ⟨w, chain, rfl, transparent⟩ := h
  have run := chain.unwrapWithin exceeded 0
  rw [Nat.add_zero, unwrapWithin_zero transparent] at run
  rw [run]
  exact congrArg (Trail.mk · _) (List.append_nil wrappers)

/-- The budget is exceeded only by more wrappers in a row. -/
theorem overlong_of_unwrapWithin
    (other : ∀ node, (V.kind node).isTransparent = true → V.inner node ≠ .error exceeded)
    (h : (V.unwrapWithin exceeded budget node).outcome = .error exceeded) :
    ∃ wrappers, V.Overlong budget node wrappers := by
  induction budget generalizing node with
  | zero =>
    cases transparent : (V.kind node).isTransparent with
    | false => simp [transparent] at h
    | true => exact ⟨[], node, .nil, rfl, transparent⟩
  | succ budget ih =>
    cases transparent : (V.kind node).isTransparent with
    | false => simp [transparent] at h
    | true =>
      cases opened : V.inner node with
      | error failure =>
        rw [unwrapWithin_of_inner_error transparent opened] at h
        exact absurd (opened.trans h) (other node transparent)
      | ok next =>
        rw [unwrapWithin_of_inner_ok transparent opened] at h
        obtain ⟨wrappers, w, chain, rfl, hw⟩ := ih h
        exact ⟨node :: wrappers, w, .cons transparent opened chain, rfl, hw⟩

/-- A greater budget changes nothing where the smaller one suffices. -/
theorem unwrapWithin_mono (h : low ≤ high) (more : Failure)
    (enough : (V.unwrapWithin exceeded low node).outcome ≠ .error exceeded) :
    V.unwrapWithin more high node = V.unwrapWithin exceeded low node := by
  induction low generalizing high node with
  | zero =>
    cases transparent : (V.kind node).isTransparent with
    | false => simp [transparent]
    | true => simp [transparent] at enough
  | succ low ih =>
    obtain ⟨high, rfl⟩ := Nat.exists_eq_succ_of_ne_zero (Nat.ne_of_gt (Nat.zero_lt_of_lt h))
    cases transparent : (V.kind node).isTransparent with
    | false => simp [transparent]
    | true =>
      cases opened : V.inner node with
      | error failure =>
        rw [unwrapWithin_of_inner_error transparent opened,
          unwrapWithin_of_inner_error transparent opened]
      | ok next =>
        rw [unwrapWithin_of_inner_ok transparent opened] at enough
        rw [unwrapWithin_of_inner_ok transparent opened,
          unwrapWithin_of_inner_ok transparent opened, ih (Nat.le_of_succ_le_succ h) enough]

/-! ## Steps -/

/-- The limit of wrappers is no failure that a child is chosen with, unless the view itself has it,
and then for every path. -/
theorem child_of_unwrapLimit
    (h : V.child path node segment = .error (.resolution p (.unwrapLimit n))) (path' : String) :
    V.child path' node segment = .error (.resolution p (.unwrapLimit n)) := by
  -- Choosing by a position fails for the position itself, or as the children fail.
  have selected {kind : Kind} {i : Nat} {children : Except Failure (List ν)}
      (h : (do child.select path i kind (← children)) = .error (.resolution p (.unwrapLimit n))) :
      (do child.select path' i kind (← children)) = .error (.resolution p (.unwrapLimit n)) := by
    cases children with
    | error failure => exact h
    | ok children =>
      change child.select path i kind children = _ at h
      unfold child.select at h
      split at h <;> cases h
  cases segment with
  | property name =>
    unfold child at h ⊢
    dsimp only at h ⊢
    split at h
    · next object =>
      rw [if_pos object]
      cases looked : V.property? node name with
      | error failure => rw [looked] at h; exact h
      | ok found =>
        rw [looked] at h
        cases found <;> cases h
    · cases h
  | element =>
    unfold child at h ⊢
    dsimp only at h ⊢
    split at h
    · exact h
    · exact h
    · cases h
  | index i =>
    unfold child at h ⊢
    dsimp only at h ⊢
    split at h
    · exact selected h
    · exact selected h
    · cases h

theorem step_mono (h : low ≤ high)
    (goes : (V.step low path node segment).outcome ≠ .error (.resolution path (.unwrapLimit low))) :
    V.step high path node segment = V.step low path node segment := by
  have unwrapped : (V.unwrap low path node).outcome ≠ .error (.resolution path (.unwrapLimit low)) :=
    fun stopped => goes (by simp [stopped])
  have same : V.unwrap high path node = V.unwrap low path node := unwrapWithin_mono h _ unwrapped
  rw [step, step, same]

theorem Overlong.step (h : V.Overlong limit node wrappers) (path : String) (segment : Segment) :
    V.step limit path node segment =
      { entered := wrappers, outcome := .error (.resolution path (.unwrapLimit limit)) } := by
  have stopped : V.unwrap limit path node =
      { entered := wrappers, outcome := .error (.resolution path (.unwrapLimit limit)) } :=
    h.unwrapWithin _
  ext <;> simp [stopped]

namespace Pathless

theorem inner_ne_unwrapLimit (h : V.Pathless) (transparent : (V.kind node).isTransparent = true) :
    V.inner node ≠ .error (.resolution p (.unwrapLimit n)) :=
  ne_resolution_of_along p _ fun path' => h.inner path' transparent

theorem child_ne_unwrapLimit (h : V.Pathless) :
    V.child path node segment ≠ .error (.resolution p (.unwrapLimit n)) := by
  intro fails
  refine ne_resolution_of_along p _ (fun path' => ?_) fails
  rw [← h.child path path' node segment]
  exact (child_of_unwrapLimit fails path').trans fails.symm

/-- Unwrapping fails for a number of wrappers only where there are too many. -/
theorem unwrapWithin_of_unwrapLimit (h : V.Pathless)
    (fails : (V.unwrapWithin exceeded budget node).outcome
      = .error (.resolution p (.unwrapLimit n))) :
    exceeded = .resolution p (.unwrapLimit n) := by
  induction budget generalizing node with
  | zero =>
    cases transparent : (V.kind node).isTransparent with
    | false => simp [transparent] at fails
    | true => simpa [transparent] using fails
  | succ budget ih =>
    cases transparent : (V.kind node).isTransparent with
    | false => simp [transparent] at fails
    | true =>
      cases opened : V.inner node with
      | error failure =>
        rw [unwrapWithin_of_inner_error transparent opened] at fails
        exact absurd (opened.trans fails) (h.inner_ne_unwrapLimit transparent)
      | ok next =>
        rw [unwrapWithin_of_inner_ok transparent opened] at fails
        exact ih fails

theorem step_of_unwrapLimit (h : V.Pathless)
    (fails : (V.step limit path node segment).outcome = .error (.resolution p (.unwrapLimit n))) :
    p = path ∧ n = limit ∧ ∃ wrappers, V.Overlong limit node wrappers := by
  rw [outcome_step] at fails
  cases unwrapped : (V.unwrap limit path node).outcome with
  | ok u =>
    rw [unwrapped] at fails
    exact absurd fails h.child_ne_unwrapLimit
  | error failure =>
    rw [unwrapped] at fails
    obtain rfl := Except.error.inj fails
    obtain ⟨rfl, ⟨rfl⟩⟩ := Failure.resolution.inj (h.unwrapWithin_of_unwrapLimit unwrapped)
    exact ⟨rfl, rfl, overlong_of_unwrapWithin (fun _ => h.inner_ne_unwrapLimit) unwrapped⟩

end Pathless

/-! ## Walks -/

/-- A walk that the limit does not stop is the same one under every greater limit. -/
theorem walk_mono (h : low ≤ high)
    (goes : (V.walk low path root segments).outcome ≠ .error (.resolution path (.unwrapLimit low))) :
    V.walk high path root segments = V.walk low path root segments := by
  induction segments generalizing root with
  | nil => rfl
  | cons segment rest ih =>
    rw [walk_cons] at goes
    have first : (V.step low path root segment).outcome
        ≠ .error (.resolution path (.unwrapLimit low)) :=
      fun stopped => goes (by rw [Trail.outcome_bind, stopped])
    rw [walk_cons, walk_cons, step_mono h first]
    cases stepped : (V.step low path root segment).outcome with
    | error failure => rw [Trail.bind_of_error stepped, Trail.bind_of_error stepped]
    | ok node =>
      rw [Trail.bind_of_ok stepped] at goes
      rw [Trail.bind_of_ok stepped, Trail.bind_of_ok stepped, ih goes]

/-- A walk enters the wrappers before an overlong row, as many of the row as the limit allows, and
no more. -/
theorem Overlong.walk (arrives : (V.walk limit path root before).outcome = .ok node)
    (h : V.Overlong limit node wrappers) (segment : Segment) (after : List Segment) :
    V.walk limit path root (before ++ segment :: after) =
      { entered := (V.walk limit path root before).entered ++ wrappers
        outcome := .error (.resolution path (.unwrapLimit limit)) } := by
  have stopped : V.walk limit path node (segment :: after) =
      { entered := wrappers, outcome := .error (.resolution path (.unwrapLimit limit)) } := by
    rw [walk_cons, h.step, Trail.bind_of_error rfl]
  rw [walk_append, Trail.bind_of_ok arrives, stopped]

/-- A walk that fails for the limit has come to an overlong row. -/
theorem Pathless.walk_of_unwrapLimit (h : V.Pathless)
    (fails : (V.walk limit path root segments).outcome
      = .error (.resolution p (.unwrapLimit n))) :
    p = path ∧ n = limit ∧ ∃ before segment after node wrappers,
      segments = before ++ segment :: after ∧
      (V.walk limit path root before).outcome = .ok node ∧ V.Overlong limit node wrappers := by
  induction segments generalizing root with
  | nil => cases fails
  | cons segment rest ih =>
    rw [walk_cons] at fails
    -- Either this step fails, and then before an overlong row, or one of the later steps does.
    cases stepped : (V.step limit path root segment).outcome with
    | error failure =>
      rw [Trail.bind_of_error stepped] at fails
      obtain rfl := Except.error.inj fails
      obtain ⟨rfl, rfl, wrappers, overlong⟩ := h.step_of_unwrapLimit stepped
      exact ⟨rfl, rfl, [], segment, rest, root, wrappers, rfl, rfl, overlong⟩
    | ok next =>
      rw [Trail.bind_of_ok stepped] at fails
      obtain ⟨rfl, rfl, before, later, after, node, wrappers, rfl, arrives, overlong⟩ := ih fails
      refine ⟨rfl, rfl, segment :: before, later, after, node, wrappers, rfl, ?_, overlong⟩
      rw [walk_cons, Trail.bind_of_ok stepped]
      exact arrives

/-- How the limit bears on the walks through a view. -/
structure MonotoneInLimit (V : View ν) : Prop where
  /-- A walk that the limit does not stop is the same under every greater limit: it enters the same
  nodes, and it arrives at the same node or fails alike. -/
  keeps {low high : Nat} (h : low ≤ high) (path : String) (root : ν) (segments : List Segment) :
    (V.walk low path root segments).outcome ≠ .error (.resolution path (.unwrapLimit low)) →
      V.walk high path root segments = V.walk low path root segments
  /-- A walk fails for a number of wrappers if and only if one of its steps, and all steps before it
  succeed, starts at a node with more wrappers in a row than the limit. -/
  stopped_iff (limit : Nat) (path : String) (root : ν) (segments : List Segment) (p : String)
    (n : Nat) :
    (V.walk limit path root segments).outcome = .error (.resolution p (.unwrapLimit n)) ↔
      p = path ∧ n = limit ∧ ∃ before segment after node wrappers,
        segments = before ++ segment :: after ∧
        (V.walk limit path root before).outcome = .ok node ∧ V.Overlong limit node wrappers
  /-- Of such a row it enters as many wrappers as the limit allows. -/
  enters (limit : Nat) (path : String) (root : ν) (before : List Segment) (segment : Segment)
    (after : List Segment) (node : ν) (wrappers : List ν) :
    (V.walk limit path root before).outcome = .ok node → V.Overlong limit node wrappers →
      (V.walk limit path root (before ++ segment :: after)).entered
        = (V.walk limit path root before).entered ++ wrappers
  /-- No walk goes on for ever. -/
  ends (limit : Nat) (path : String) (root : ν) (segments : List Segment) :
    (V.walk limit path root segments).entered.length ≤ segments.length * limit

theorem Pathless.monotoneInLimit (h : V.Pathless) : V.MonotoneInLimit where
  keeps le _ _ _ goes := walk_mono le goes
  stopped_iff limit path root segments p n := by
    refine ⟨h.walk_of_unwrapLimit, ?_⟩
    rintro ⟨rfl, rfl, before, segment, after, node, wrappers, rfl, arrives, overlong⟩
    rw [overlong.walk arrives]
  enters limit path root before segment after node wrappers arrives overlong := by
    rw [overlong.walk arrives]
  ends := V.length_entered_walk

end View

/-- Walks through schemas and walks through static types are monotone in the limit: what a walk
comes to under some limit stays under every greater one, unless the limit stopped it, and the limit
stops it just at the first step from more wrappers in a row than it allows. -/
theorem walk_monotoneInLimit (scope : Scope) (names : Names) :
    scope.view.MonotoneInLimit ∧ names.view.MonotoneInLimit :=
  ⟨scope.pathless.monotoneInLimit, names.pathless.monotoneInLimit⟩

/-- A lazy schema that stands for itself is entered three times under the limit three. -/
example :
    let scope : Scope := { defs := [("LOOP", .schema (.lazy 0))], getters := [(0, .named "LOOP")] }
    scope.view.walk 3 "a" (.lazy 0) [.property "a"] =
      { entered := [.lazy 0, .lazy 0, .lazy 0]
        outcome := .error (.resolution "a" (.unwrapLimit 3)) } := rfl

end Schemata
