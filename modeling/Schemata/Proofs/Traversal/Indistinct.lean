import Schemata.Proofs.Traversal.Limits
import Schemata.Proofs.Traversal.Lockstep

/-!
# Nodes that no walk tells apart

A walk tells two nodes apart if it enters wrappers of other kinds from the one than from the other,
finds nodes of different kinds, or fails differently. It never does so for nodes that are related in
lock-step. Conversely, the nodes that no walk tells apart are themselves in lock-step: what two views
have to agree on for all walks to agree is just what lock-step asks for.
-/

namespace Schemata

/-! ## Trails that are cut short -/

namespace Trail

variable {ν μ α β : Type} {R : ν → μ → Prop}

/-- A trail that fails where it would enter more than `n` nodes. -/
def stopAt (n : Nat) (failure : Failure) (x : Trail ν α) : Trail ν α :=
  if n < x.entered.length then { entered := x.entered.take n, outcome := .error failure } else x

/-- What a trail does behind the first node that it enters. -/
def behindFirst (x : Trail ν α) : Trail ν α :=
  { x with entered := x.entered.tail }

theorem outcome_of_stopAt {n : Nat} {failure : Failure} {x : Trail ν α} {a : α}
    (h : (x.stopAt n failure).outcome = .ok a) : x.outcome = .ok a := by
  unfold stopAt at h
  split at h
  · cases h
  · exact h

theorem stopAt_bind_lift (n : Nat) (failure : Failure) (x : Trail ν α) (f : α → Except Failure β) :
    (x.stopAt n failure >>= fun a => lift (f a)) = (x >>= fun a => lift (f a)).stopAt n failure := by
  obtain ⟨entered, _ | a⟩ := x <;> by_cases h : n < entered.length <;>
    simp [stopAt, bind, andThen, lift, h]

theorem behindFirst_bind_lift (x : Trail ν α) (f : α → Except Failure β) :
    (x >>= fun a => lift (f a)).behindFirst = x.behindFirst >>= fun a => lift (f a) := by
  obtain ⟨entered, _ | a⟩ := x <;> simp [behindFirst, bind, andThen, lift]

namespace InStep

variable {x : Trail ν ν} {y : Trail μ μ}

theorem symm (h : InStep R x y) : InStep (fun b a => R a b) y x :=
  ⟨h.entered.flip, h.outcome.symm⟩

theorem stopAt (h : InStep R x y) (n : Nat) (failure : Failure) :
    InStep R (x.stopAt n failure) (y.stopAt n failure) := by
  unfold Trail.stopAt
  rw [← h.entered.length_eq]
  split
  · exact ⟨List.forall₂_take n h.entered, .error failure⟩
  · exact h

theorem behindFirst (h : InStep R x y) : InStep R x.behindFirst y.behindFirst := by
  refine ⟨?_, h.outcome⟩
  simpa [Trail.behindFirst] using List.forall₂_drop 1 h.entered

end InStep

end Trail

namespace View

variable {ν μ : Type} {V : View ν} {W : View μ} {limit low high n : Nat} {path name : String}
  {a c node t : ν} {b d : μ} {segment : Segment} {failure exceeded : Failure}

/-- Nodes of the same kind. -/
def SameKind (V : View ν) (W : View μ) (a : ν) (b : μ) : Prop :=
  V.kind a = W.kind b

/-- Under one limit and for one path text, no walk tells the nodes apart. -/
def IndistinctUnder (V : View ν) (W : View μ) (limit : Nat) (path : String) (a : ν) (b : μ) : Prop :=
  ∀ segments, Trail.InStep (V.SameKind W)
    (V.walk limit path a segments) (W.walk limit path b segments)

/-- No walk tells the nodes apart: under every limit and along all segments, wrappers of the same
kinds are entered, and what is found has the same kind, or is missed for the same reason. -/
def Indistinct (V : View ν) (W : View μ) (a : ν) (b : μ) : Prop :=
  ∀ limit, 0 < limit → ∀ path, V.IndistinctUnder W limit path a b

/-! ## Steps -/

/-- Under a smaller budget unwrapping does the same, up to where it is stopped. -/
theorem unwrapWithin_eq_stopAt (h : low < high) (exceeded more : Failure) (node : ν) :
    V.unwrapWithin exceeded low node = (V.unwrapWithin more high node).stopAt low exceeded := by
  induction low generalizing high node with
  | zero =>
    obtain ⟨high, rfl⟩ := Nat.exists_eq_succ_of_ne_zero (Nat.ne_of_gt h)
    cases transparent : (V.kind node).isTransparent with
    | false => simp [transparent, Trail.stopAt]
    | true =>
      rw [unwrapWithin_zero transparent]
      cases opened : V.inner node with
      | error failure =>
        simp [unwrapWithin_of_inner_error transparent opened, Trail.stopAt, Trail.fail]
      | ok next => simp [unwrapWithin_of_inner_ok transparent opened, Trail.stopAt, Trail.fail]
  | succ low ih =>
    obtain ⟨high, rfl⟩ := Nat.exists_eq_succ_of_ne_zero (Nat.ne_of_gt (Nat.zero_lt_of_lt h))
    cases transparent : (V.kind node).isTransparent with
    | false => simp [transparent, Trail.stopAt]
    | true =>
      cases opened : V.inner node with
      | error failure => simp [unwrapWithin_of_inner_error transparent opened, Trail.stopAt]
      | ok next =>
        rw [unwrapWithin_of_inner_ok transparent opened, unwrapWithin_of_inner_ok transparent opened,
          ih (Nat.lt_of_succ_lt_succ h)]
        by_cases longer : low < (V.unwrapWithin more high next).entered.length <;>
          simp [Trail.stopAt, longer]

theorem step_eq_stopAt (h : low < high) (path : String) (node : ν) (segment : Segment) :
    V.step low path node segment
      = (V.step high path node segment).stopAt low (.resolution path (.unwrapLimit low)) := by
  have unwrapped : V.unwrap low path node
      = (V.unwrap high path node).stopAt low (.resolution path (.unwrapLimit low)) :=
    unwrapWithin_eq_stopAt h _ _ node
  rw [step, unwrapped, Trail.stopAt_bind_lift]
  rfl

@[simp] theorem step_of_solid (solid : (V.kind node).isTransparent = false) (limit : Nat) (path : String)
    (segment : Segment) : V.step limit path node segment = .lift (V.child path node segment) := by
  simp [step, unwrap, solid]

theorem step_of_inner_error (transparent : (V.kind node).isTransparent = true)
    (stuck : V.inner node = .error failure) (limit : Nat) (path : String) (segment : Segment) :
    V.step (limit + 1) path node segment = { entered := [node], outcome := .error failure } := by
  ext <;> simp [unwrap, transparent, stuck]

/-- A step from a wrapper enters the wrapper first. -/
theorem exists_entered_step (transparent : (V.kind node).isTransparent = true) (limit : Nat)
    (path : String) (segment : Segment) :
    ∃ rest, (V.step (limit + 1) path node segment).entered = node :: rest := by
  rw [entered_step, unwrap]
  cases opened : V.inner node with
  | error failure => exact ⟨[], by simp [transparent, opened]⟩
  | ok next => exact ⟨_, by rw [unwrapWithin_of_inner_ok transparent opened]⟩

/-- A step from what is inside a wrapper, told from the step from the wrapper. -/
theorem step_of_inner_ok (transparent : (V.kind node).isTransparent = true)
    (opened : V.inner node = .ok t) (limit : Nat) (path : String) (segment : Segment) :
    V.step limit path t segment = (V.step (limit + 2) path node segment).behindFirst.stopAt limit
      (.resolution path (.unwrapLimit limit)) := by
  have outer : (V.unwrap (limit + 2) path node).behindFirst
      = V.unwrapWithin (.resolution path (.unwrapLimit (limit + 2))) (limit + 1) t := by
    rw [unwrap, unwrapWithin_of_inner_ok transparent opened]
    rfl
  have inner : V.unwrap limit path t = (V.unwrap (limit + 2) path node).behindFirst.stopAt limit
      (.resolution path (.unwrapLimit limit)) := by
    rw [outer]
    exact unwrapWithin_eq_stopAt (Nat.lt_succ_self limit) _ _ t
  rw [step, inner, Trail.stopAt_bind_lift, ← Trail.behindFirst_bind_lift]
  rfl

/-! ## Children -/

theorem child_of_property_error (object : V.kind node = .object)
    (looked : V.property? node name = .error failure) (path : String) :
    V.child path node (.property name) = .error failure := by
  simp only [child, object, if_true, looked]
  rfl

theorem child_of_property_none (object : V.kind node = .object)
    (looked : V.property? node name = .ok none) (path : String) :
    V.child path node (.property name) = .error (.resolution path (.unknownProperty name)) := by
  simp only [child, object, if_true, looked]
  rfl

theorem child_of_property_some (object : V.kind node = .object)
    (looked : V.property? node name = .ok (some t)) (path : String) :
    V.child path node (.property name) = .ok t := by
  simp only [child, object, if_true, looked]
  rfl

theorem child_of_array (array : V.kind node = .array) (path : String) :
    V.child path node .element = V.element node := by
  simp only [child, array]

theorem child_of_record (record : V.kind node = .record) (path : String) :
    V.child path node .element = V.value node := by
  simp only [child, record]

theorem child_of_tuple (tuple : V.kind node = .tuple) (path : String) (n : Nat) :
    V.child path node (.index n) = V.items node >>= child.select path n .tuple := by
  simp only [child, tuple]

theorem child_of_union (union : V.kind node = .union) (path : String) (n : Nat) :
    V.child path node (.index n) = V.options node >>= child.select path n .union := by
  simp only [child, union]

theorem child_of_not_object (notObject : V.kind node ≠ .object) (path name : String) :
    V.child path node (.property name)
      = .error (.resolution path (.notAnObject name (V.kind node))) := by
  simp only [child, if_neg notObject]
  rfl

/-- What reading a child fails for does not depend on the path, so it is not what another node is
blocked for at every path. -/
theorem not_related_blocked {R : ν → μ → Prop} {y : String → Except Failure μ} {obstacle : Obstacle}
    (h : ∀ path, Related R (.error failure) (y path))
    (blocked : ∀ path, y path = .error (.resolution path obstacle)) : False := by
  have named (path : String) : .resolution path obstacle = failure :=
    Except.error.inj ((blocked path).symm.trans (h path).eq_error)
  have same : "" = "." := (Failure.resolution.inj ((named "").trans (named ".").symm)).1
  exact absurd same (by decide)

/-- At every node some segment leads nowhere, whatever can be read there. -/
theorem exists_blocked (V : View ν) (node : ν) :
    ∃ segment obstacle, ∀ path, V.child path node segment = .error (.resolution path obstacle) := by
  by_cases object : V.kind node = .object
  · refine ⟨.element, .notIndexable none .object, fun path => ?_⟩
    simp only [child, object]
    rfl
  · exact ⟨.property "", _, fun path => child_of_not_object object path ""⟩

theorem select_length (path : String) (kind : Kind) (children : List ν) :
    child.select path children.length kind children
      = .error (.resolution path (.indexOutOfBounds children.length children.length kind)) := by
  simp [child.select]

theorem select_of_lt (path : String) (kind : Kind) {children : List ν} (h : n < children.length) :
    child.select path n kind children = .ok (children.get ⟨n, h⟩) := by
  simp [child.select, h]

/-- Behind the last of some children there is none of others only if there are as many. -/
theorem length_eq_of_related_select {R : ν → μ → Prop} {kind : Kind} {as : List ν} {bs : List μ}
    (h : Related R (child.select path as.length kind as) (child.select path as.length kind bs)) :
    as.length = bs.length := by
  rw [select_length] at h
  have missing := h.eq_error
  unfold child.select at missing
  split at missing
  · cases missing
  · injection Except.error.inj missing with _ obstacle
    injection obstacle with _ same
    exact same.symm

theorem object_of_related_child {R : ν → μ → Prop} (object : V.kind c = .object)
    (h : ∀ path, Related R (V.child path c (.property name)) (W.child path d (.property name))) :
    W.kind d = .object := by
  by_contra notObject
  have blocked := fun path => W.child_of_not_object notObject path name
  cases looked : V.property? c name with
  | error failure =>
    have related (path : String) : Related R (.error failure) (W.child path d (.property name)) :=
      child_of_property_error object looked path ▸ h path
    exact not_related_blocked related blocked
  | ok found =>
    have related := h ""
    rw [blocked] at related
    cases found with
    | none =>
      rw [child_of_property_none object looked] at related
      cases related
    | some next =>
      rw [child_of_property_some object looked] at related
      cases related

theorem kind_eq_of_child (h : ∀ path, Related (V.SameKind W)
    (V.child path c (.property name)) (W.child path d (.property name))) : V.kind c = W.kind d := by
  by_cases object : V.kind c = .object
  · exact object.trans (object_of_related_child object h).symm
  · by_cases object' : W.kind d = .object
    · exact absurd (object_of_related_child object' fun path => (h path).symm) object
    · have related := h ""
      rw [child_of_not_object object, child_of_not_object object'] at related
      injection Except.error.inj related.eq_error with _ obstacle
      injection obstacle with _ same
      exact same.symm

/-! ## Agreement of walks -/

namespace IndistinctUnder

theorem kind (h : V.IndistinctUnder W limit path a b) : V.kind a = W.kind b := by
  cases (h []).outcome with
  | ok same => exact same

theorem step (h : V.IndistinctUnder W limit path a b) (segment : Segment) :
    Trail.InStep (V.SameKind W)
      (V.step limit path a segment) (W.step limit path b segment) := by
  simpa [walk] using h [segment]

/-- Walks go on alike from where a step leads. -/
theorem next (h : V.IndistinctUnder W limit path a b)
    (ha : (V.step limit path a segment).outcome = .ok c)
    (hb : (W.step limit path b segment).outcome = .ok d) : V.IndistinctUnder W limit path c d := by
  intro rest
  have whole := h (segment :: rest)
  rw [walk_cons, walk_cons, Trail.bind_of_ok ha, Trail.bind_of_ok hb] at whole
  refine ⟨?_, whole.outcome⟩
  have same := (h.step segment).entered.length_eq
  rw [entered_step, entered_step] at same
  simpa [← same] using List.forall₂_drop (V.step limit path a segment).entered.length whole.entered

/-- Nodes of the same kind are not told apart if their steps and what the steps lead to are not. -/
theorem of_step (same : V.kind a = W.kind b)
    (steps : ∀ segment, Trail.InStep (V.SameKind W)
      (V.step limit path a segment) (W.step limit path b segment))
    (nexts : ∀ segment c d, (V.step limit path a segment).outcome = .ok c →
      (W.step limit path b segment).outcome = .ok d → V.IndistinctUnder W limit path c d) :
    V.IndistinctUnder W limit path a b := by
  intro segments
  cases segments with
  | nil => exact .pure same
  | cons segment rest =>
    rw [walk_cons, walk_cons]
    apply (steps segment).bind
    intro c d hc hd _
    exact nexts segment c d hc hd rest

/-- What no walk tells apart under a limit, none does under a smaller one. -/
theorem lower (h : V.IndistinctUnder W high path a b) (less : low < high) :
    V.IndistinctUnder W low path a b := by
  intro segments
  induction segments generalizing a b with
  | nil => exact .pure h.kind
  | cons segment rest ih =>
    rw [walk_cons, walk_cons, step_eq_stopAt less, step_eq_stopAt less]
    apply ((h.step segment).stopAt low _).bind
    intro c d hc hd _
    exact ih (h.next (Trail.outcome_of_stopAt hc) (Trail.outcome_of_stopAt hd))

end IndistinctUnder

namespace Indistinct

theorem kind (h : V.Indistinct W a b) : V.kind a = W.kind b :=
  (h 1 Nat.one_pos "").kind

theorem symm (h : V.Indistinct W a b) : W.Indistinct V b a := by
  intro limit pos path segments
  exact (h limit pos path segments).symm.mono fun _ _ same => same.symm

/-- A step from inside the second wrapper goes in step with what the step from the first wrapper does
behind that wrapper. -/
theorem step_inside (h : V.Indistinct W a b) (transparent : (V.kind a).isTransparent = true)
    (opened : W.inner b = .ok d) (limit : Nat) (path : String) (segment : Segment) :
    Trail.InStep (V.SameKind W)
      ((V.step (limit + 2) path a segment).behindFirst.stopAt limit
        (.resolution path (.unwrapLimit limit)))
      (W.step limit path d segment) := by
  rw [W.step_of_inner_ok (h.kind ▸ transparent) opened]
  exact ((h (limit + 2) (Nat.succ_pos _) path).step segment).behindFirst.stopAt limit _

/-- A wrapper that fails to open and one that opens are told apart. -/
theorem not_inner_error_ok (h : V.Indistinct W a b) (transparent : (V.kind a).isTransparent = true)
    (stuck : V.inner a = .error failure) (opened : W.inner b = .ok d) : False := by
  have steps (path : String) (segment : Segment) :
      Trail.InStep (V.SameKind W) (.fail failure) (W.step 1 path d segment) := by
    simpa [step_of_inner_error transparent stuck, Trail.behindFirst, Trail.stopAt, Trail.fail] using
      h.step_inside transparent opened 1 path segment
  cases through : (W.kind d).isTransparent with
  | true =>
    -- The second wrapper in a row shows in what is entered.
    have entered := (steps "" .element).entered
    obtain ⟨rest, first⟩ := W.exists_entered_step through 0 "" .element
    rw [first] at entered
    cases entered
  | false =>
    obtain ⟨segment, obstacle, blocked⟩ := W.exists_blocked d
    have related (path : String) :
        Related (V.SameKind W) (.error failure) (W.child path d segment) := by
      simpa [through] using (steps path segment).outcome
    exact not_related_blocked related blocked

/-- Steps that go in step tell the kinds of the nodes that they start from. -/
theorem kind_eq_of_step (steps : ∀ path segment, Trail.InStep (V.SameKind W)
    (V.step 1 path c segment) (W.step 1 path d segment)) : V.kind c = W.kind d := by
  have entered := (steps "" .element).entered
  match through : (V.kind c).isTransparent, through' : (W.kind d).isTransparent with
  | true, true =>
    -- Both steps enter the node that they start from.
    obtain ⟨rest, first⟩ := V.exists_entered_step through 0 "" .element
    obtain ⟨rest', first'⟩ := W.exists_entered_step through' 0 "" .element
    rw [first, first'] at entered
    cases entered with
    | cons same _ => exact same
  | true, false =>
    obtain ⟨rest, first⟩ := V.exists_entered_step through 0 "" .element
    rw [first, W.step_of_solid through'] at entered
    cases entered
  | false, true =>
    obtain ⟨rest, first⟩ := W.exists_entered_step through' 0 "" .element
    rw [first, V.step_of_solid through] at entered
    cases entered
  | false, false =>
    -- Neither step enters anything, but a name that is no property tells the kind.
    have related (path : String) : Related (V.SameKind W)
        (V.child path c (.property "")) (W.child path d (.property "")) := by
      simpa [through, through'] using (steps path (.property "")).outcome
    exact kind_eq_of_child related

/-- What is inside two wrappers is not told apart if the wrappers are not. -/
theorem inside (h : V.Indistinct W a b) (transparent : (V.kind a).isTransparent = true)
    (opened : V.inner a = .ok c) (opened' : W.inner b = .ok d) : V.Indistinct W c d := by
  have steps (limit : Nat) (path : String) (segment : Segment) :
      Trail.InStep (V.SameKind W)
        (V.step limit path c segment) (W.step limit path d segment) := by
    rw [V.step_of_inner_ok transparent opened]
    exact h.step_inside transparent opened' limit path segment
  have same : V.kind c = W.kind d := kind_eq_of_step (steps 1)
  intro limit pos path
  apply IndistinctUnder.of_step same (steps limit path)
  -- Where a step from inside leads, the step from the wrapper leads under a greater limit.
  intro segment u w hu hw
  rw [V.step_of_inner_ok transparent opened] at hu
  rw [W.step_of_inner_ok (h.kind ▸ transparent) opened'] at hw
  have arrives : (V.step (limit + 2) path a segment).behindFirst.outcome = .ok u :=
    Trail.outcome_of_stopAt hu
  have arrives' : (W.step (limit + 2) path b segment).behindFirst.outcome = .ok w :=
    Trail.outcome_of_stopAt hw
  exact ((h (limit + 2) (Nat.succ_pos _) path).next arrives arrives').lower
    (Nat.lt_add_of_pos_right Nat.two_pos)

theorem inner (h : V.Indistinct W a b) (transparent : (V.kind a).isTransparent = true) :
    Related (V.Indistinct W) (V.inner a) (W.inner b) := by
  have transparent' : (W.kind b).isTransparent = true := h.kind ▸ transparent
  cases opened : V.inner a with
  | error failure =>
    cases opened' : W.inner b with
    | error failure' =>
      have outcome := ((h 1 Nat.one_pos "").step .element).outcome
      rw [step_of_inner_error transparent opened, step_of_inner_error transparent' opened'] at outcome
      cases outcome
      exact .error failure
    | ok d => exact (h.not_inner_error_ok transparent opened opened').elim
  | ok c =>
    cases opened' : W.inner b with
    | error failure' => exact (h.symm.not_inner_error_ok transparent' opened' opened).elim
    | ok d => exact .ok (h.inside transparent opened opened')

/-! ## Children of nodes that no walk tells apart -/

theorem related_child (h : V.Indistinct W a b) (solid : (V.kind a).isTransparent = false)
    (path : String) (segment : Segment) : Related (V.SameKind W)
      (V.child path a segment) (W.child path b segment) := by
  have outcome := ((h 1 Nat.one_pos path).step segment).outcome
  rwa [step_of_solid solid, step_of_solid (h.kind ▸ solid)] at outcome

/-- What a segment leads to at every path is not told apart. -/
theorem child (h : V.Indistinct W a b) (solid : (V.kind a).isTransparent = false)
    (segment : Segment) {x : Except Failure ν} {y : Except Failure μ}
    (hx : ∀ path, V.child path a segment = x) (hy : ∀ path, W.child path b segment = y) :
    Related (V.Indistinct W) x y := by
  have related := h.related_child solid "" segment
  rw [hx, hy] at related
  cases related with
  | error failure => exact .error failure
  | @ok c d _ =>
    refine .ok fun limit pos path => ?_
    have arrives : (V.step limit path a segment).outcome = .ok c := by simp [solid, hx]
    have arrives' : (W.step limit path b segment).outcome = .ok d := by
      simp [← h.kind, solid, hy]
    exact (h limit pos path).next arrives arrives'

/-- A property that cannot be read and one that does not exist are told apart. -/
theorem not_property_error_none (h : V.Indistinct W a b) (object : V.kind a = .object)
    (looked : V.property? a name = .error failure) (looked' : W.property? b name = .ok none) :
    False := by
  have solid : (V.kind a).isTransparent = false := by rw [object]; rfl
  have related (path : String) :
      Related (V.SameKind W) (.error failure) (W.child path b (.property name)) :=
    child_of_property_error object looked path ▸ h.related_child solid path (.property name)
  exact not_related_blocked related (child_of_property_none (h.kind ▸ object) looked')

theorem property (h : V.Indistinct W a b) (object : V.kind a = .object) (name : String) :
    Related (Option.Rel (V.Indistinct W)) (V.property? a name) (W.property? b name) := by
  have object' : W.kind b = .object := h.kind ▸ object
  have solid : (V.kind a).isTransparent = false := by rw [object]; rfl
  have related := h.related_child solid "" (.property name)
  have child {x : Except Failure ν} {y : Except Failure μ} :
      (∀ path, V.child path a (.property name) = x) →
        (∀ path, W.child path b (.property name) = y) → Related (V.Indistinct W) x y :=
    h.child solid (.property name)
  match looked : V.property? a name, looked' : W.property? b name with
  | .error failure, .error failure' =>
    cases child (child_of_property_error object looked) (child_of_property_error object' looked')
    exact .error failure
  | .error failure, .ok none => exact (h.not_property_error_none object looked looked').elim
  | .error failure, .ok (some d) =>
    cases child (child_of_property_error object looked) (child_of_property_some object' looked')
  | .ok none, .error failure' => exact (h.symm.not_property_error_none object' looked' looked).elim
  | .ok none, .ok none => exact .ok .none
  | .ok none, .ok (some d) =>
    rw [child_of_property_none object looked, child_of_property_some object' looked'] at related
    cases related
  | .ok (some c), .error failure' =>
    cases child (child_of_property_some object looked) (child_of_property_error object' looked')
  | .ok (some c), .ok none =>
    rw [child_of_property_some object looked, child_of_property_none object' looked'] at related
    cases related
  | .ok (some c), .ok (some d) =>
    cases child (child_of_property_some object looked) (child_of_property_some object' looked') with
    | ok same => exact .ok (.some same)

variable {kind : Kind} {x : Except Failure (List ν)} {y : Except Failure (List μ)}

/-- Children that cannot be read and children that can are told apart behind the last of them. -/
theorem not_children_error_ok (h : V.Indistinct W a b) (solid : (V.kind a).isTransparent = false)
    {ds : List μ} (stuck : ∀ path n, V.child path a (.index n) = .error failure)
    (read : ∀ path n, W.child path b (.index n) = child.select path n kind ds) : False := by
  have related (path : String) :
      Related (V.SameKind W) (.error failure) (W.child path b (.index ds.length)) :=
    stuck path ds.length ▸ h.related_child solid path (.index ds.length)
  exact not_related_blocked related fun path =>
    (read path ds.length).trans (select_length path kind ds)

/-- Children that positions select are not told apart, and there are as many. -/
theorem children (h : V.Indistinct W a b) (solid : (V.kind a).isTransparent = false)
    (hx : ∀ path n, V.child path a (.index n) = x >>= child.select path n kind)
    (hy : ∀ path n, W.child path b (.index n) = y >>= child.select path n kind) :
    Related (List.Forall₂ (V.Indistinct W)) x y := by
  have solid' : (W.kind b).isTransparent = false := h.kind ▸ solid
  match x, y with
  | .error failure, .error failure' =>
    have related := h.related_child solid "" (.index 0)
    rw [hx, hy] at related
    cases related
    exact .error failure
  | .error failure, .ok ds => exact (h.not_children_error_ok solid hx hy).elim
  | .ok cs, .error failure' => exact (h.symm.not_children_error_ok solid' hy hx).elim
  | .ok cs, .ok ds =>
    have same : cs.length = ds.length := by
      have related := h.related_child solid "" (.index cs.length)
      rw [hx, hy] at related
      exact length_eq_of_related_select related
    refine .ok (List.forall₂_iff_get.mpr ⟨same, fun n hn hn' => ?_⟩)
    have selected (path : String) : V.child path a (.index n) = .ok (cs.get ⟨n, hn⟩) :=
      (hx path n).trans (select_of_lt path kind hn)
    have selected' (path : String) : W.child path b (.index n) = .ok (ds.get ⟨n, hn'⟩) :=
      (hy path n).trans (select_of_lt path kind hn')
    cases h.child solid (.index n) selected selected' with
    | ok indistinct => exact indistinct

/-- Not being told apart is a relation in lock-step, the greatest one. -/
theorem lockstep (V : View ν) (W : View μ) : V.Lockstep W (V.Indistinct W) where
  kind h := h.kind
  inner h := h.inner
  property name h object := h.property object name
  element h array :=
    h.child (by rw [array]; rfl) .element (child_of_array array) (child_of_array (h.kind ▸ array))
  value h record :=
    h.child (by rw [record]; rfl) .element (child_of_record record)
      (child_of_record (h.kind ▸ record))
  items h tuple :=
    h.children (by rw [tuple]; rfl) (child_of_tuple tuple) (child_of_tuple (h.kind ▸ tuple))
  options h union :=
    h.children (by rw [union]; rfl) (child_of_union union) (child_of_union (h.kind ▸ union))

end Indistinct

theorem Lockstep.indistinct {R : ν → μ → Prop} (h : V.Lockstep W R) (hab : R a b) :
    V.Indistinct W a b := by
  intro limit _ path segments
  exact (h.walk limit path segments hab).mono fun _ _ => h.kind

end View

end Schemata
