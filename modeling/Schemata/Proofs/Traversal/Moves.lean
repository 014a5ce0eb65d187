import Schemata.Schema.View

/-!
# Moves along a path

What a path leads to, said without a traversal. A move looks through the wrappers of a schema, of
which there may only be so many, and goes to the child that the segment names. A path leads to where
its moves lead one after another; if a move is blocked, that is why the path leads nowhere.
-/

namespace Schemata

namespace Schema

/-- Schemas that a path looks through. -/
def isWrapper : Schema → Bool
  | wrapper .. | lazy _ | pipe .. => true
  | leaf .. | object .. | array .. | record .. | tuple .. | union .. => false

/-- The child that a segment names. -/
inductive HasChild : Schema → Segment → Schema → Prop
  | property {id : NodeId} {shape : List (String × Schema)} {name : String} {s : Schema} :
    shape.lookup name = some s → HasChild (object id shape) (.property name) s
  | element {id : NodeId} {element : Schema} : HasChild (array id element) .element element
  | value {id : NodeId} {key value : Schema} : HasChild (record id key value) .element value
  | item {id : NodeId} {items : List Schema} {n : Nat} {s : Schema} :
    items[n]? = some s → HasChild (tuple id items) (.index n) s
  | option {id : NodeId} {options : List Schema} {n : Nat} {s : Schema} :
    options[n]? = some s → HasChild (union id options) (.index n) s

/-- Why a segment names no child. -/
inductive Lacks : Schema → Segment → Obstacle → Prop
  | notAnObject {s : Schema} {name : String} : (∀ id shape, s ≠ object id shape) →
    Lacks s (.property name) (.notAnObject name s.kind)
  | unknownProperty {id : NodeId} {shape : List (String × Schema)} {name : String} :
    shape.lookup name = none → Lacks (object id shape) (.property name) (.unknownProperty name)
  | noElement {s : Schema} : (∀ id element, s ≠ array id element) →
    (∀ id key value, s ≠ record id key value) → Lacks s .element (.notIndexable none s.kind)
  | noIndex {s : Schema} {n : Nat} : (∀ id items, s ≠ tuple id items) →
    (∀ id options, s ≠ union id options) → Lacks s (.index n) (.notIndexable (some n) s.kind)
  | itemOutOfBounds {id : NodeId} {items : List Schema} {n : Nat} : items.length ≤ n →
    Lacks (tuple id items) (.index n) (.indexOutOfBounds n items.length .tuple)
  | optionOutOfBounds {id : NodeId} {options : List Schema} {n : Nat} : options.length ≤ n →
    Lacks (union id options) (.index n) (.indexOutOfBounds n options.length .union)

end Schema

namespace Scope

variable (scope : Scope)

/-- What stands behind one wrapper. -/
inductive Opens : Schema → Schema → Prop
  | inner {id : NodeId} {w : Wrapper} {inner : Schema} : Opens (.wrapper id w inner) inner
  | target {id : NodeId} {s : Schema} : scope.target id = .ok s → Opens (.lazy id) s
  | output {id : NodeId} {input output : Schema} : Opens (.pipe id input output) output

/-- What stands behind some number of wrappers. -/
inductive Behind : Nat → Schema → Schema → Prop
  | zero {s : Schema} : Behind 0 s s
  | succ {n : Nat} {s t u : Schema} : scope.Opens s t → Behind n t u → Behind (n + 1) s u

/-- One move: through at most `limit` wrappers, and on to a child. -/
def Moves (limit : Nat) (s : Schema) (segment : Segment) (t : Schema) : Prop :=
  ∃ n u, n ≤ limit ∧ scope.Behind n s u ∧ u.isWrapper = false ∧ u.HasChild segment t

/-- Moves one after another. -/
inductive Travels (limit : Nat) : Schema → List Segment → Schema → Prop
  | nil {s : Schema} : Travels limit s [] s
  | cons {s t u : Schema} {segment : Segment} {rest : List Segment} :
    scope.Moves limit s segment t → Travels limit t rest u → Travels limit s (segment :: rest) u

/-- Why a move along `path` is impossible: there are more than `limit` wrappers, or what stands behind
them has no such child, or a lazy schema on the way has no target. -/
inductive Blocked (limit : Nat) (path : String) (s : Schema) (segment : Segment) : Failure → Prop
  | limit {u : Schema} : scope.Behind limit s u → u.isWrapper = true →
    Blocked limit path s segment (.resolution path (.unwrapLimit limit))
  | child {n : Nat} {u : Schema} {obstacle : Obstacle} : n ≤ limit → scope.Behind n s u →
    u.isWrapper = false → u.Lacks segment obstacle →
    Blocked limit path s segment (.resolution path obstacle)
  | target {n : Nat} {id : NodeId} {failure : Failure} : n < limit → scope.Behind n s (.lazy id) →
    scope.target id = .error failure → Blocked limit path s segment failure

end Scope

/-! ## Children -/

namespace Schema

/-- The kinds that are stepped through are those of wrappers. -/
@[simp] theorem isTransparent_kind (s : Schema) : s.kind.isTransparent = s.isWrapper := by
  cases s with
  | leaf _ l => cases l <;> rfl
  | wrapper _ w _ => cases w <;> rfl
  | _ => rfl

theorem hasChild_or_lacks (s : Schema) (segment : Segment) :
    (∃ t, s.HasChild segment t) ∨ ∃ obstacle, s.Lacks segment obstacle := by
  cases segment with
  | property name =>
    cases s with
    | object id shape =>
      cases found : shape.lookup name with
      | none => exact .inr ⟨_, .unknownProperty found⟩
      | some t => exact .inl ⟨t, .property found⟩
    | _ => exact .inr ⟨_, .notAnObject (by simp)⟩
  | element =>
    cases s with
    | array id element => exact .inl ⟨_, .element⟩
    | record id key value => exact .inl ⟨_, .value⟩
    | _ => exact .inr ⟨_, .noElement (by simp) (by simp)⟩
  | index n =>
    cases s with
    | tuple id items =>
      by_cases inside : n < items.length
      · exact .inl ⟨_, .item (List.getElem?_eq_getElem inside)⟩
      · exact .inr ⟨_, .itemOutOfBounds (Nat.le_of_not_lt inside)⟩
    | union id options =>
      by_cases inside : n < options.length
      · exact .inl ⟨_, .option (List.getElem?_eq_getElem inside)⟩
      · exact .inr ⟨_, .optionOutOfBounds (Nat.le_of_not_lt inside)⟩
    | _ => exact .inr ⟨_, .noIndex (by simp) (by simp)⟩

variable {s t : Schema} {segment : Segment} {obstacle : Obstacle}

/-- The kind tells which child can be read. -/
theorem HasChild.child (h : s.HasChild segment t) (scope : Scope) (path : String) :
    scope.view.child path s segment = .ok t := by
  cases h with
  | @property id shape name _ found =>
    have read : scope.view.property? (.object id shape) name = .ok (some t) := by
      change Except.ok (shape.lookup name) = _
      rw [found]
    simp only [View.child, read]
    rfl
  | element => rfl
  | value => rfl
  | @item id items n _ found =>
    change View.child.select path n .tuple items = _
    simp only [View.child.select, found]
  | @option id options n _ found =>
    change View.child.select path n .union options = _
    simp only [View.child.select, found]

/-- A segment that names no child fails for that, and never in reading a child. -/
theorem Lacks.child (h : s.Lacks segment obstacle) (scope : Scope) (path : String) :
    scope.view.child path s segment = .error (.resolution path obstacle) := by
  cases h with
  | notAnObject other =>
    have kind : scope.view.kind s ≠ .object := by
      intro h
      obtain ⟨id, shape, rfl⟩ := eq_object_of_kind h
      exact other id shape rfl
    rw [View.child, if_neg kind]
    rfl
  | @unknownProperty id shape name missing =>
    have read : scope.view.property? (.object id shape) name = .ok none := by
      change Except.ok (shape.lookup name) = _
      rw [missing]
    simp only [View.child, read]
    rfl
  | noElement array record =>
    simp only [View.child]
    split
    next h =>
      obtain ⟨id, element, rfl⟩ := eq_array_of_kind h
      exact absurd rfl (array id element)
    next h =>
      obtain ⟨id, key, value, rfl⟩ := eq_record_of_kind h
      exact absurd rfl (record id key value)
    next => rfl
  | noIndex tuple union =>
    simp only [View.child]
    split
    next h =>
      obtain ⟨id, items, rfl⟩ := eq_tuple_of_kind h
      exact absurd rfl (tuple id items)
    next h =>
      obtain ⟨id, options, rfl⟩ := eq_union_of_kind h
      exact absurd rfl (union id options)
    next => rfl
  | @itemOutOfBounds id items n outside =>
    change View.child.select path n .tuple items = _
    simp only [View.child.select, List.getElem?_eq_none outside]
  | @optionOutOfBounds id options n outside =>
    change View.child.select path n .union options = _
    simp only [View.child.select, List.getElem?_eq_none outside]

end Schema

namespace Scope

variable {scope : Scope} {limit budget n : Nat} {path : String} {s t u : Schema}
  {segment : Segment} {segments : List Segment} {failure exceeded : Failure}

/-! ## Wrappers -/

theorem Opens.isWrapper (h : scope.Opens s t) : s.isWrapper = true := by
  cases h <;> rfl

theorem Opens.innerOf (h : scope.Opens s t) : scope.view.inner s = .ok t := by
  cases h with
  | inner => rfl
  | target found => exact found
  | output => rfl

/-- Behind a wrapper stands something, unless it is a lazy schema without a target. -/
theorem opens_or_target_error (h : s.isWrapper = true) :
    (∃ t, scope.Opens s t) ∨ ∃ id failure, s = .lazy id ∧ scope.target id = .error failure := by
  cases s with
  | wrapper id w inner => exact .inl ⟨inner, .inner⟩
  | pipe id input output => exact .inl ⟨output, .output⟩
  | lazy id =>
    cases found : scope.target id with
    | error failure => exact .inr ⟨id, failure, rfl, found⟩
    | ok t => exact .inl ⟨t, .target found⟩
  | _ => cases h

theorem outcome_unwrapWithin_opens (h : scope.Opens s t) (exceeded : Failure) (budget : Nat) :
    (scope.view.unwrapWithin exceeded (budget + 1) s).outcome
      = (scope.view.unwrapWithin exceeded budget t).outcome := by
  simp [h.isWrapper, h.innerOf]

/-- Unwrapping goes on behind wrappers with what is left of the budget. -/
theorem Behind.outcome_unwrapWithin (h : scope.Behind n s u) (exceeded : Failure) (budget : Nat) :
    (scope.view.unwrapWithin exceeded (n + budget) s).outcome
      = (scope.view.unwrapWithin exceeded budget u).outcome := by
  induction h with
  | zero => rw [Nat.zero_add]
  | succ opens _ ih => rw [Nat.add_right_comm, outcome_unwrapWithin_opens opens, ih]

/-- Within a budget, there is a schema that is no wrapper, or a wrapper behind all that the budget
allows, or a lazy schema without a target. -/
theorem behind_cases (budget : Nat) (s : Schema) :
    (∃ n u, n ≤ budget ∧ scope.Behind n s u ∧ u.isWrapper = false) ∨
      (∃ u, scope.Behind budget s u ∧ u.isWrapper = true) ∨
      ∃ n id failure, n < budget ∧ scope.Behind n s (.lazy id) ∧
        scope.target id = .error failure := by
  cases wrapper : s.isWrapper with
  | false => exact .inl ⟨0, s, Nat.zero_le _, .zero, wrapper⟩
  | true =>
    cases budget with
    | zero => exact .inr (.inl ⟨s, .zero, wrapper⟩)
    | succ budget =>
      rcases scope.opens_or_target_error wrapper with ⟨t, opens⟩ | ⟨id, failure, rfl, found⟩
      · rcases behind_cases budget t with
          ⟨n, u, hn, behind, hu⟩ | ⟨u, behind, hu⟩ | ⟨n, id, failure, hn, behind, hu⟩
        · exact .inl ⟨n + 1, u, Nat.succ_le_succ hn, .succ opens behind, hu⟩
        · exact .inr (.inl ⟨u, .succ opens behind, hu⟩)
        · exact .inr (.inr ⟨n + 1, id, failure, Nat.succ_lt_succ hn, .succ opens behind, hu⟩)
      · exact .inr (.inr ⟨0, id, failure, Nat.succ_pos _, .zero, found⟩)

theorem outcome_unwrap_of_behind (hn : n ≤ limit) (behind : scope.Behind n s u)
    (hu : u.isWrapper = false) : (scope.view.unwrap limit path s).outcome = .ok u := by
  obtain ⟨rest, rfl⟩ := Nat.exists_eq_add_of_le hn
  simp [View.unwrap, behind.outcome_unwrapWithin, hu]

theorem outcome_unwrap_of_limit (behind : scope.Behind limit s u) (hu : u.isWrapper = true) :
    (scope.view.unwrap limit path s).outcome
      = .error (.resolution path (.unwrapLimit limit)) := by
  have run := behind.outcome_unwrapWithin (.resolution path (.unwrapLimit limit)) 0
  simpa [View.unwrap, hu] using run

theorem outcome_unwrap_of_target {id : NodeId} (hn : n < limit)
    (behind : scope.Behind n s (.lazy id)) (found : scope.target id = .error failure) :
    (scope.view.unwrap limit path s).outcome = .error failure := by
  obtain ⟨rest, rfl⟩ := Nat.exists_eq_add_of_lt hn
  have inner : scope.view.inner (.lazy id) = .error failure := found
  rw [View.unwrap, Nat.add_assoc, behind.outcome_unwrapWithin, View.unwrapWithin_succ rfl]
  simp [inner]

/-! ## Moves -/

/-- A step goes where the move goes. -/
theorem Moves.outcome_step (h : scope.Moves limit s segment t) (path : String) :
    (scope.view.step limit path s segment).outcome = .ok t := by
  obtain ⟨n, u, hn, behind, hu, child⟩ := h
  rw [View.outcome_step, outcome_unwrap_of_behind hn behind hu]
  exact child.child scope path

/-- A step fails for what blocks the move. -/
theorem Blocked.outcome_step (h : scope.Blocked limit path s segment failure) :
    (scope.view.step limit path s segment).outcome = .error failure := by
  rw [View.outcome_step]
  cases h with
  | limit behind hu => rw [outcome_unwrap_of_limit behind hu]
  | target hn behind found => rw [outcome_unwrap_of_target hn behind found]
  | child hn behind hu lacks =>
    rw [outcome_unwrap_of_behind hn behind hu]
    exact lacks.child scope path

/-- Every move is possible or blocked. -/
theorem moves_or_blocked (limit : Nat) (path : String) (s : Schema) (segment : Segment) :
    (∃ t, scope.Moves limit s segment t) ∨
      ∃ failure, scope.Blocked limit path s segment failure := by
  rcases scope.behind_cases limit s with
    ⟨n, u, hn, behind, hu⟩ | ⟨u, behind, hu⟩ | ⟨n, id, failure, hn, behind, found⟩
  · rcases u.hasChild_or_lacks segment with ⟨t, child⟩ | ⟨obstacle, lacks⟩
    · exact .inl ⟨t, n, u, hn, behind, hu, child⟩
    · exact .inr ⟨_, .child hn behind hu lacks⟩
  · exact .inr ⟨_, .limit behind hu⟩
  · exact .inr ⟨_, .target hn behind found⟩

/-! ## Paths -/

/-- A walk goes on from where the moves lead. -/
theorem Travels.outcome_walk {before after : List Segment} (h : scope.Travels limit s before t)
    (path : String) :
    (scope.view.walk limit path s (before ++ after)).outcome
      = (scope.view.walk limit path t after).outcome := by
  induction h with
  | nil => rfl
  | cons moves _ ih =>
    rw [← ih, List.cons_append, View.walk_cons, Trail.outcome_bind, moves.outcome_step path]

theorem Travels.outcome_walk_self (h : scope.Travels limit s segments t) (path : String) :
    (scope.view.walk limit path s segments).outcome = .ok t := by
  have run : (scope.view.walk limit path s (segments ++ [])).outcome = .ok t :=
    h.outcome_walk path
  rwa [List.append_nil] at run

/-- A walk does not go on behind a move that is blocked. -/
theorem Travels.outcome_walk_blocked {before after : List Segment}
    (h : scope.Travels limit s before t) (blocked : scope.Blocked limit path t segment failure) :
    (scope.view.walk limit path s (before ++ segment :: after)).outcome = .error failure := by
  rw [h.outcome_walk, View.walk_cons, Trail.outcome_bind, blocked.outcome_step]

/-- A path leads somewhere, or there is a first move on it that is blocked. -/
theorem travels_or_blocked (limit : Nat) (path : String) (s : Schema) (segments : List Segment) :
    (∃ t, scope.Travels limit s segments t) ∨
      ∃ before segment after m failure, segments = before ++ segment :: after ∧
        scope.Travels limit s before m ∧ scope.Blocked limit path m segment failure := by
  induction segments generalizing s with
  | nil => exact .inl ⟨s, .nil⟩
  | cons segment rest ih =>
    rcases scope.moves_or_blocked limit path s segment with ⟨t, moves⟩ | ⟨failure, blocked⟩
    · rcases ih t with ⟨u, travels⟩ | ⟨before, next, after, m, failure, rfl, travels, blocked⟩
      · exact .inl ⟨u, .cons moves travels⟩
      · exact .inr ⟨segment :: before, next, after, m, failure, rfl, .cons moves travels, blocked⟩
    · exact .inr ⟨[], segment, rest, s, failure, rfl, .nil, blocked⟩

/-- A walk arrives where the path leads. -/
theorem outcome_walk_ok_iff : (scope.view.walk limit path s segments).outcome = .ok t ↔
    scope.Travels limit s segments t := by
  constructor
  · intro h
    rcases scope.travels_or_blocked limit path s segments with
      ⟨u, travels⟩ | ⟨before, segment, after, m, failure, rfl, travels, blocked⟩
    · rw [travels.outcome_walk_self] at h
      exact Except.ok.inj h ▸ travels
    · rw [travels.outcome_walk_blocked blocked] at h
      cases h
  · intro travels
    exact travels.outcome_walk_self path

/-- A walk fails for what blocks the first move that is blocked. -/
theorem outcome_walk_error_iff :
    (scope.view.walk limit path s segments).outcome = .error failure ↔
      ∃ before segment after m, segments = before ++ segment :: after ∧
        scope.Travels limit s before m ∧ scope.Blocked limit path m segment failure := by
  constructor
  · intro h
    rcases scope.travels_or_blocked limit path s segments with
      ⟨u, travels⟩ | ⟨before, segment, after, m, failure', rfl, travels, blocked⟩
    · rw [travels.outcome_walk_self] at h
      cases h
    · rw [travels.outcome_walk_blocked blocked] at h
      obtain rfl := Except.error.inj h
      exact ⟨before, segment, after, m, rfl, travels, blocked⟩
  · rintro ⟨before, segment, after, m, rfl, travels, blocked⟩
    exact travels.outcome_walk_blocked blocked

/-- A path that is read as segments is followed along them. -/
theorem resolve_of_coerce {path : PathArgument} {text : String}
    (h : path.coerce = .ok (text, segments.map .segment)) :
    scope.resolve limit s path
      = (scope.view.walk limit text s segments).filterMap Schema.lazyId? := by
  simp only [resolve, h, View.walkPieces_map_segment]

end Scope

end Schemata
