import Schemata.Proofs.Path.Join
import Schemata.Proofs.Schema.Graph
import Schemata.Proofs.Session.Typing
import Schemata.Proofs.Traversal.Composition

/-!
# Paths through schemas in a session

Finding the schema at a path changes a session only in which lazy schemas were asked for their
targets. What is found is where the moves along the path lead. A path may be followed in stages: the
schema that its first part leads to is where the rest begins.
-/

namespace Schemata

theorem Schema.HasChild.mem_children {s t : Schema} {segment : Segment}
    (h : s.HasChild segment t) : t ∈ s.children := by
  cases h with
  | property found => exact property_mem_children _ (mem_of_lookup found)
  | element => exact element_mem_children _ _
  | value => exact value_mem_children _ _ _
  | item found => exact List.mem_of_getElem? found
  | option found => exact List.mem_of_getElem? found

namespace Scope

variable {scope : Scope} {limit n : Nat} {root s t : Schema} {segment : Segment}
  {segments : List Segment}

/-! ## Moves in the graph -/

theorem Opens.leads (h : scope.Opens s t) : scope.Leads (fun _ => False) s t := by
  cases h with
  | inner => exact .child (Schema.inner_mem_children _ _ _)
  | target found => exact .target (fun h => h) found
  | output => exact .child (Schema.output_mem_children _ _ _)

theorem Behind.contains (h : scope.Behind n s t) (hs : scope.Contains root s) :
    scope.Contains root t := by
  induction h with
  | zero => exact hs
  | succ opens _ ih => exact ih (hs.tail opens.leads)

/-- Moves do not leave the graph. -/
theorem Travels.contains (h : scope.Travels limit s segments t) (hs : scope.Contains root s) :
    scope.Contains root t := by
  induction h with
  | nil => exact hs
  | cons moves _ ih =>
    obtain ⟨_, _, _, behind, _, child⟩ := moves
    exact ih ((behind.contains hs).child child.mem_children)

/-- Where every lazy schema has a target, a move is blocked by an obstacle only. -/
theorem Blocked.obstacle {path : String} {failure : Failure}
    (h : scope.Blocked limit path s segment failure) (hs : scope.Contains root s)
    (grounded : scope.Grounded (fun _ => False) root) :
    ∃ obstacle, failure = .resolution path obstacle := by
  cases h with
  | limit => exact ⟨_, rfl⟩
  | child => exact ⟨_, rfl⟩
  | target _ behind found =>
    obtain ⟨t, ht⟩ := grounded _ (behind.contains hs) fun h => h
    rw [found] at ht
    cases ht

end Scope

namespace Session

variable {σ : Session} {root : Schema}

theorem exec_schemaAt {path : PathArgument} {text : String} {segments : List Segment}
    (h : path.coerce = .ok (text, segments.map .segment)) (root : Schema) (σ : Session) :
    let walk := σ.workshop.scope.view.walk σ.settings.maxUnwrapDepth text root segments
    (schemaAt (.schema root) path).exec σ
      = (walk.outcome, σ.asking (walk.entered.filterMap Schema.lazyId?)) := by
  rw [exec_schemaAt_resolve, Scope.resolve_of_coerce h]
  rfl

/-- What was asked for its target does not change where a path leads. -/
theorem exec_schemaAt_again {path : PathArgument} {text : String} {segments : List Segment}
    (h : path.coerce = .ok (text, segments.map .segment)) {outcome : Except Failure Schema}
    {σ' : Session} (run : (schemaAt (.schema root) path).exec σ = (outcome, σ')) :
    ((schemaAt (.schema root) path).exec σ').1 = outcome := by
  rw [exec_schemaAt h] at run ⊢
  obtain ⟨rfl, rfl⟩ := Prod.mk.inj run
  rfl

/-! ## Where a path leads -/

/-- The schema at a path is where the moves along the path lead, through as many wrappers at a time
as the settings allow. If there is none, the first move that is blocked tells why, with the whole
path. Unless a lazy schema has no target, that is an obstacle of the path. -/
theorem schemaAt_iff_travels {path : PathArgument} {text : String} {segments : List Segment}
    (h : path.coerce = .ok (text, segments.map .segment)) :
    let found := ((schemaAt (.schema root) path).exec σ).1
    let scope := σ.workshop.scope
    let limit := σ.settings.maxUnwrapDepth
    (∀ m, found = .ok m ↔ scope.Travels limit root segments m) ∧
    (∀ failure, found = .error failure ↔
      ∃ before segment after m, segments = before ++ segment :: after ∧
        scope.Travels limit root before m ∧ scope.Blocked limit text m segment failure) ∧
    (segments = [] → found = .ok root) ∧
    ((∀ id, scope.Contains root (.lazy id) → ∃ s, scope.target id = .ok s) →
      ∀ failure, found = .error failure → ∃ obstacle, failure = .resolution text obstacle) := by
  rw [exec_schemaAt h]
  refine ⟨fun m => Scope.outcome_walk_ok_iff, fun failure => Scope.outcome_walk_error_iff, ?_, ?_⟩
  · rintro rfl
    rfl
  · intro targets failure fails
    obtain ⟨_, _, _, _, _, travels, blocked⟩ := Scope.outcome_walk_error_iff.mp fails
    exact blocked.obstacle (travels.contains .refl) fun id hid _ => targets id hid

/-- An object whose rows are optional and lazy. -/
def grid : Schema :=
  .object 1 [("rows", .wrapper 2 .optional (.lazy 0))]

/-- The rows: pairs of a text and of more rows. -/
def rows : Schema :=
  .array 3 (.tuple 4 [.leaf 5 (.string true), .lazy 0])

/-- A session in which the rows are defined. -/
def withGrid : Session :=
  { initial with
    workshop :=
      { Workshop.empty with
        scope := { defs := [("ROWS", .schema rows)], getters := [(0, .named "ROWS")] } } }

/-- Behind the optional and the lazy schema stand the rows. A pair ends at its second item, which is
found as the lazy schema that it is, and a position behind it is out of bounds. -/
theorem schemaAt_iff_travels_grid :
    PathArgument.coerce (.text "rows[][1]")
      = .ok ("rows[][1]", [Segment.property "rows", .element, .index 1].map .segment) ∧
    ((schemaAt (.schema grid) (.text "rows[][1]")).exec withGrid).1 = .ok (.lazy 0) ∧
    PathArgument.coerce (.text "rows[][2]")
      = .ok ("rows[][2]", [Segment.property "rows", .element, .index 2].map .segment) ∧
    ((schemaAt (.schema grid) (.text "rows[][2]")).exec withGrid).1
      = .error (.resolution "rows[][2]" (.indexOutOfBounds 2 2 .tuple)) := by
  have coerced : PathArgument.coerce (.text "rows[][1]")
      = .ok ("rows[][1]", [Segment.property "rows", .element, .index 1].map .segment) := by cbv
  have outside : PathArgument.coerce (.text "rows[][2]")
      = .ok ("rows[][2]", [Segment.property "rows", .element, .index 2].map .segment) := by cbv
  have target : withGrid.workshop.scope.target 0 = .ok rows := rfl
  let pair : Schema := .tuple 4 [.leaf 5 (.string true), .lazy 0]
  have toRows : withGrid.workshop.scope.Moves 64 grid (.property "rows")
      (.wrapper 2 .optional (.lazy 0)) :=
    ⟨0, grid, Nat.zero_le _, .zero, rfl, .property rfl⟩
  have toPair : withGrid.workshop.scope.Moves 64 (.wrapper 2 .optional (.lazy 0)) .element pair :=
    ⟨2, rows, by decide, .succ .inner (.succ (.target target) .zero), rfl, .element⟩
  have toItem : withGrid.workshop.scope.Moves 64 pair (.index 1) (.lazy 0) :=
    ⟨0, pair, Nat.zero_le _, .zero, rfl, .item rfl⟩
  have blocked : withGrid.workshop.scope.Blocked 64 "rows[][2]" pair (.index 2)
      (.resolution "rows[][2]" (.indexOutOfBounds 2 2 .tuple)) :=
    .child (Nat.zero_le _) .zero rfl (.itemOutOfBounds (Nat.le_refl 2))
  refine ⟨coerced, ?_, outside, ?_⟩
  · exact ((schemaAt_iff_travels coerced).1 _).mpr
      (.cons toRows (.cons toPair (.cons toItem .nil)))
  · exact ((schemaAt_iff_travels outside).2.1 _).mpr
      ⟨[.property "rows", .element], .index 2, [], pair, rfl, .cons toRows (.cons toPair .nil),
        blocked⟩

/-! ## Following a path in stages -/

/-- A path that goes on from another one, under whatever text, leads on from where the other leads,
and asks the same lazy schemas for their targets. -/
theorem exec_schemaAt_append {p q r : String} {ps qs : List Segment}
    (hp : PathArgument.parse p = .ok ps) (hq : PathArgument.parse q = .ok qs)
    (hr : PathArgument.parse r = .ok (ps ++ qs)) :
    (schemaAt (.schema root) (.text r)).exec σ =
      match (schemaAt (.schema root) (.text p)).exec σ with
      | (.error failure, σ₁) => (.error (failure.along r), σ₁)
      | (.ok m, σ₁) =>
        (((schemaAt (.schema m) (.text q)).exec σ₁).1.mapError (.along r),
          ((schemaAt (.schema m) (.text q)).exec σ₁).2) := by
  rw [exec_schemaAt (Path.argument_coerce_text hp),
    exec_schemaAt (Path.argument_coerce_text hr), View.walk_append,
    (Scope.pathless _).walk_along _ p r root ps]
  generalize σ.workshop.scope.view.walk _ p root ps = walk
  obtain ⟨entered, _ | m⟩ := walk
  · rfl
  · have second := exec_schemaAt (Path.argument_coerce_text hq) m
      (σ.asking (entered.filterMap Schema.lazyId?))
    simp only [second]
    rw [Trail.bind_of_ok (a := m) rfl, (Scope.pathless _).walk_along _ q r m qs,
      List.filterMap_append, asking_append]
    rfl

/-- Joined text is read as the segments of both parts. If the first part leads to a schema, the
joined path leads to where the second part leads from there, or fails alike but for the path; it
leaves the session as following the path in stages does, and leads there afterwards, too. If the
first part fails, the joined path fails alike but for the path. So no path leads anywhere behind one
that fails. -/
theorem schemaAt_join {p q : String} {ps qs : List Segment}
    (hp : PathArgument.parse p = .ok ps) (hq : PathArgument.parse q = .ok qs)
    (point : q.toList.head? ≠ some '.') :
    let joined := Path.join p q
    PathArgument.parse joined = .ok (ps ++ qs) ∧
    (∀ m σ₁, (schemaAt (.schema root) (.text p)).exec σ = (.ok m, σ₁) →
      ∀ outcome σ₂, (schemaAt (.schema m) (.text q)).exec σ₁ = (outcome, σ₂) →
        (schemaAt (.schema root) (.text joined)).exec σ = (outcome.mapError (.along joined), σ₂) ∧
        ((schemaAt (.schema root) (.text joined)).exec σ₂).1 = outcome.mapError (.along joined)) ∧
    (∀ failure σ₁, (schemaAt (.schema root) (.text p)).exec σ = (.error failure, σ₁) →
      (schemaAt (.schema root) (.text joined)).exec σ = (.error (failure.along joined), σ₁) ∧
      ((schemaAt (.schema root) (.text joined)).exec σ₁).1 = .error (failure.along joined)) ∧
    ∀ r, PathArgument.parse r = .ok (ps ++ qs) →
      ∀ n, ((schemaAt (.schema root) (.text r)).exec σ).1 = .ok n →
        ∃ m, ((schemaAt (.schema root) (.text p)).exec σ).1 = .ok m := by
  intro joined
  have hjoined : PathArgument.parse joined = .ok (ps ++ qs) :=
    Path.argument_parse_ok_iff.mpr (Path.parse_join (Path.argument_parse_ok_iff.mp hp)
      (Path.argument_parse_ok_iff.mp hq) point)
  refine ⟨hjoined, ?_, ?_, ?_⟩
  · intro m σ₁ first outcome σ₂ second
    have staged : (schemaAt (.schema root) (.text joined)).exec σ
        = (outcome.mapError (.along joined), σ₂) := by
      rw [exec_schemaAt_append hp hq hjoined, first]
      simp only [second]
    exact ⟨staged, exec_schemaAt_again (Path.argument_coerce_text hjoined) staged⟩
  · intro failure σ₁ first
    have fails : (schemaAt (.schema root) (.text joined)).exec σ
        = (.error (failure.along joined), σ₁) := by
      rw [exec_schemaAt_append hp hq hjoined, first]
    exact ⟨fails, exec_schemaAt_again (Path.argument_coerce_text hjoined) fails⟩
  · intro r hr n found
    rw [exec_schemaAt_append hp hq hr] at found
    generalize (schemaAt (.schema root) (.text p)).exec σ = first at found
    obtain ⟨_ | m, σ₁⟩ := first
    · cases found
    · exact ⟨m, rfl⟩

/-- The second item of a pair is found in stages. The first stage asks the lazy schema for the rows,
and the second one goes on with a bracket. -/
theorem schemaAt_join_grid :
    PathArgument.parse "rows[]" = .ok [.property "rows", .element] ∧
    PathArgument.parse "[1]" = .ok [.index 1] ∧ "[1]".toList.head? ≠ some '.' ∧
    PathArgument.parse "rows[][1]" = .ok [.property "rows", .element, .index 1] ∧
    (schemaAt (.schema grid) (.text "rows[][1]")).exec withGrid
      = (.ok (.lazy 0), withGrid.asking [0]) := by
  have hp : PathArgument.parse "rows[]" = .ok [.property "rows", .element] := by cbv
  have hq : PathArgument.parse "[1]" = .ok [.index 1] := by cbv
  have point : "[1]".toList.head? ≠ some '.' := by decide
  have joined : Path.join "rows[]" "[1]" = "rows[][1]" := by decide
  have staged := @schemaAt_join withGrid grid _ _ _ _ hp hq point
  simp only [joined] at staged
  obtain ⟨parsed, follows, _⟩ := staged
  have first : (schemaAt (.schema grid) (.text "rows[]")).exec withGrid
      = (.ok (.tuple 4 [.leaf 5 (.string true), .lazy 0]), withGrid.asking [0]) := by
    rw [exec_schemaAt (Path.argument_coerce_text hp)]
    rfl
  have second : (schemaAt (.schema (.tuple 4 [.leaf 5 (.string true), .lazy 0])) (.text "[1]")).exec
      (withGrid.asking [0]) = (.ok (.lazy 0), withGrid.asking [0]) := by
    rw [exec_schemaAt (Path.argument_coerce_text hq)]
    rfl
  exact ⟨hp, hq, point, parsed, (follows _ _ first _ _ second).1⟩

end Session

end Schemata
