import Schemata.Proofs.Traversal.Composition

/-!
# What a traversal enters

A traversal enters the wrappers that stand before its steps, as many at a time as the limit allows.
It enters nothing behind a step that fails, and not the schema that it arrives at.
-/

namespace Schemata

/-! ## How much is entered -/

namespace View

variable {ν : Type} {V : View ν} {exceeded : Failure} {node : ν}

theorem entered_unwrapWithin_zero : (V.unwrapWithin exceeded 0 node).entered = [] := by
  cases transparent : (V.kind node).isTransparent <;> simp [transparent]

variable (V)

theorem length_entered_unwrapWithin (exceeded : Failure) (budget : Nat) (node : ν) :
    (V.unwrapWithin exceeded budget node).entered.length ≤ budget := by
  induction budget generalizing node with
  | zero => simp [entered_unwrapWithin_zero]
  | succ budget ih =>
    cases transparent : (V.kind node).isTransparent with
    | false => simp [transparent]
    | true =>
      rw [unwrapWithin_succ transparent, Nat.add_comm]
      exact Trail.length_entered_bind (Nat.le_refl 1) ih

theorem length_entered_stepPiece (limit : Nat) (path : String) (node : ν) (piece : Piece) :
    (V.stepPiece limit path node piece).entered.length ≤ limit := by
  rw [entered_stepPiece]
  exact V.length_entered_unwrapWithin _ limit node

/-- A walk enters at most as many wrappers a step as the limit allows. -/
theorem length_entered_walkPieces (limit : Nat) (path : String) (root : ν) (pieces : List Piece) :
    (V.walkPieces limit path root pieces).entered.length ≤ pieces.length * limit := by
  induction pieces generalizing root with
  | nil => exact Nat.zero_le _
  | cons piece pieces ih =>
    rw [walkPieces_cons, List.length_cons, Nat.succ_mul, Nat.add_comm]
    exact Trail.length_entered_bind (V.length_entered_stepPiece limit path root piece) ih

theorem length_entered_walk (limit : Nat) (path : String) (root : ν) (segments : List Segment) :
    (V.walk limit path root segments).entered.length ≤ segments.length * limit := by
  rw [← walkPieces_map_segment]
  simpa using V.length_entered_walkPieces limit path root (segments.map .segment)

end View

namespace Scope

variable {scope : Scope} {limit budget n : Nat} {path : String} {s t u : Schema}
  {piece : Piece} {pieces : List Piece} {exceeded : Failure}

/-! ## Wrappers -/

theorem Opens.unique (h : scope.Opens s t) (h' : scope.Opens s u) : t = u := by
  cases h with
  | inner => cases h'; rfl
  | output => cases h'; rfl
  | target found =>
    cases h' with
    | target found' => exact Except.ok.inj (found.symm.trans found')

theorem Behind.trans {m : Nat} (h : scope.Behind m s t) (h' : scope.Behind n t u) :
    scope.Behind (m + n) s u := by
  induction h with
  | zero => rwa [Nat.zero_add]
  | succ opens _ ih =>
    rw [Nat.add_right_comm]
    exact .succ opens (ih h')

/-- What stands behind the first wrappers is on the way to what is no wrapper. -/
theorem Behind.rest {c : Nat} (h : scope.Behind n s u) (hu : u.isWrapper = false)
    (first : scope.Behind c s t) : ∃ m, n = c + m ∧ scope.Behind m t u := by
  induction first generalizing n with
  | zero => exact ⟨n, (Nat.zero_add n).symm, h⟩
  | succ opens _ ih =>
    cases h with
    | zero => rw [opens.isWrapper] at hu; cases hu
    | succ opens' behind =>
      obtain rfl := opens.unique opens'
      obtain ⟨m, rfl, rest⟩ := ih behind
      exact ⟨m, Nat.add_right_comm _ _ _, rest⟩

theorem entered_unwrapWithin_opens (h : scope.Opens s t) :
    (scope.view.unwrapWithin exceeded (budget + 1) s).entered
      = s :: (scope.view.unwrapWithin exceeded budget t).entered := by
  simp [h.isWrapper, h.innerOf]

theorem unwrapWithin_of_target_error {id : NodeId} {failure : Failure}
    (h : scope.target id = .error failure) :
    scope.view.unwrapWithin exceeded (budget + 1) (.lazy id)
      = { entered := [.lazy id], outcome := .error failure } := by
  have inner : scope.view.inner (.lazy id) = .error failure := h
  rw [View.unwrapWithin_succ rfl]
  ext <;> simp [inner]

/-- Unwrapping enters the wrappers that stand within the budget. -/
theorem mem_entered_unwrapWithin :
    u ∈ (scope.view.unwrapWithin exceeded budget s).entered ↔
      ∃ n < budget, scope.Behind n s u ∧ u.isWrapper = true := by
  induction budget generalizing s with
  | zero => simp [View.entered_unwrapWithin_zero]
  | succ budget ih =>
    cases wrapper : s.isWrapper with
    | false =>
      rw [View.unwrapWithin_of_solid (by simpa using wrapper)]
      refine ⟨fun h => (List.not_mem_nil h).elim, ?_⟩
      rintro ⟨n, _, behind, hu⟩
      cases behind with
      | zero => rw [wrapper] at hu; cases hu
      | succ opens _ => rw [opens.isWrapper] at wrapper; cases wrapper
    | true =>
      -- A wrapper is entered even if nothing is behind it, as with a lazy schema without a target.
      rcases scope.opens_or_target_error wrapper with ⟨t, opens⟩ | ⟨id, failure, rfl, found⟩
      · rw [entered_unwrapWithin_opens opens, List.mem_cons, ih]
        constructor
        · rintro (rfl | ⟨n, hn, behind, hu⟩)
          · exact ⟨0, Nat.succ_pos _, .zero, wrapper⟩
          · exact ⟨n + 1, Nat.succ_lt_succ hn, .succ opens behind, hu⟩
        · rintro ⟨n, hn, behind, hu⟩
          cases behind with
          | zero => exact .inl rfl
          | succ opens' behind =>
            obtain rfl := opens.unique opens'
            exact .inr ⟨_, Nat.lt_of_succ_lt_succ hn, behind, hu⟩
      · rw [unwrapWithin_of_target_error found, List.mem_singleton]
        constructor
        · rintro rfl
          exact ⟨0, Nat.succ_pos _, .zero, rfl⟩
        · rintro ⟨n, hn, behind, hu⟩
          cases behind with
          | zero => rfl
          | succ opens _ =>
            cases opens with
            | target found' => rw [found] at found'; cases found'

/-! ## Steps -/

/-- A step that succeeds is a move along a segment. -/
theorem outcome_stepPiece_ok_iff : (scope.view.stepPiece limit path s piece).outcome = .ok t ↔
    ∃ segment, piece = .segment segment ∧ scope.Moves limit s segment t := by
  constructor
  · intro h
    cases piece with
    | segment segment =>
      refine ⟨segment, rfl, ?_⟩
      change (scope.view.step limit path s segment).outcome = _ at h
      rcases scope.moves_or_blocked limit path s segment with ⟨u, moves⟩ | ⟨failure, blocked⟩
      · rw [moves.outcome_step] at h
        exact Except.ok.inj h ▸ moves
      · rw [blocked.outcome_step] at h
        cases h
    | keyed key =>
      obtain ⟨u, _, h⟩ := Trail.exists_of_outcome_bind h
      split at h
      · split at h <;> cases h
      · cases h
    | other v =>
      obtain ⟨u, _, h⟩ := Trail.exists_of_outcome_bind h
      cases h
  · rintro ⟨segment, rfl, moves⟩
    exact moves.outcome_step path

/-! ## Walks -/

/-- A walk passes through `u` before one of its steps. -/
def Passes (scope : Scope) (limit : Nat) (s : Schema) (pieces : List Piece) (u : Schema) : Prop :=
  ∃ segments piece after m n, pieces = segments.map .segment ++ piece :: after ∧
    scope.Travels limit s segments m ∧ n < limit ∧ scope.Behind n m u

theorem passes_cons_iff : scope.Passes limit s (piece :: pieces) u ↔
    (∃ n < limit, scope.Behind n s u) ∨
      ∃ segment t, piece = .segment segment ∧ scope.Moves limit s segment t ∧
        scope.Passes limit t pieces u := by
  constructor
  · rintro ⟨segments, next, after, m, n, split, travels, hn, behind⟩
    cases travels with
    | nil => exact .inl ⟨n, hn, behind⟩
    | @cons _ t _ segment rest moves travels =>
      obtain ⟨rfl, rfl⟩ := List.cons.inj split
      exact .inr ⟨segment, t, rfl, moves, rest, next, after, m, n, rfl, travels, hn, behind⟩
  · rintro (⟨n, hn, behind⟩ | ⟨segment, t, rfl, moves, segments, next, after, m, n, rfl, travels,
      hn, behind⟩)
    · exact ⟨[], piece, pieces, s, n, rfl, .nil, hn, behind⟩
    · exact ⟨segment :: segments, next, after, m, n, rfl, .cons moves travels, hn, behind⟩

theorem mem_entered_stepPiece (h : u.isWrapper = true) (path : String) (piece : Piece) :
    u ∈ (scope.view.stepPiece limit path s piece).entered ↔ ∃ n < limit, scope.Behind n s u := by
  rw [View.entered_stepPiece, View.unwrap, mem_entered_unwrapWithin]
  simp only [h, and_true]

/-- A walk enters the wrappers that it passes through. -/
theorem mem_entered_walkPieces (h : u.isWrapper = true) (path : String) :
    u ∈ (scope.view.walkPieces limit path s pieces).entered ↔ scope.Passes limit s pieces u := by
  induction pieces generalizing s with
  | nil =>
    refine ⟨fun h => (List.not_mem_nil h).elim, ?_⟩
    rintro ⟨segments, piece, after, _, _, split, _⟩
    simp at split
  | cons piece pieces ih =>
    rw [View.walkPieces_cons, passes_cons_iff, ← mem_entered_stepPiece h path piece]
    -- A step that fails is the last one, so nothing is passed through behind it.
    cases stepped : (scope.view.stepPiece limit path s piece).outcome with
    | error failure =>
      rw [Trail.bind_of_error stepped]
      refine ⟨.inl, Or.rec id ?_⟩
      rintro ⟨segment, t, rfl, moves, _⟩
      rw [outcome_stepPiece_ok_iff.mpr ⟨segment, rfl, moves⟩] at stepped
      cases stepped
    | ok t =>
      rw [Trail.bind_of_ok stepped, List.mem_append, ih]
      obtain ⟨segment, rfl, moves⟩ := outcome_stepPiece_ok_iff.mp stepped
      refine or_congr_right ⟨fun passes => ⟨segment, t, rfl, moves, passes⟩, ?_⟩
      rintro ⟨_, t', ⟨⟩, moves', passes⟩
      have stepped' := moves'.outcome_step path
      exact Except.ok.inj (stepped'.symm.trans stepped) ▸ passes

/-- What a step enters does not depend on the path text. -/
theorem entered_stepPiece_along (path path' : String) :
    (scope.view.stepPiece limit path' s piece).entered
      = (scope.view.stepPiece limit path s piece).entered := by
  have unwrapped : scope.view.unwrap limit path' s
      = (scope.view.unwrap limit path s).mapFailure (.along path') :=
    scope.pathless.unwrapWithin_along path' (.resolution path (.unwrapLimit limit)) limit s
  simp [unwrapped]

theorem outcome_stepPiece_along (path path' : String) :
    (scope.view.stepPiece limit path' s piece).outcome = .ok t ↔
      (scope.view.stepPiece limit path s piece).outcome = .ok t :=
  outcome_stepPiece_ok_iff.trans outcome_stepPiece_ok_iff.symm

/-- One step more enters at most as many wrappers more as the limit allows. -/
theorem entered_walkPieces_concat (scope : Scope) (limit : Nat) (path path' : String) (s : Schema)
    (pieces : List Piece) (piece : Piece) :
    ∃ last, last.length ≤ limit ∧
      (scope.view.walkPieces limit path' s (pieces ++ [piece])).entered
        = (scope.view.walkPieces limit path s pieces).entered ++ last := by
  induction pieces generalizing s with
  | nil =>
    refine ⟨_, scope.view.length_entered_stepPiece limit path' s piece, ?_⟩
    rw [List.nil_append, View.walkPieces_cons, Trail.entered_bind]
    split <;> simp
  | cons first pieces ih =>
    rw [List.cons_append, View.walkPieces_cons, View.walkPieces_cons, Trail.entered_bind,
      Trail.entered_bind, entered_stepPiece_along path path']
    cases stepped : (scope.view.stepPiece limit path' s first).outcome with
    | error failure =>
      cases before : (scope.view.stepPiece limit path s first).outcome with
      | ok t =>
        rw [(outcome_stepPiece_along path path').mpr before] at stepped
        cases stepped
      | error failure' => exact ⟨[], Nat.zero_le _, (List.append_nil _).symm⟩
    | ok t =>
      obtain ⟨last, short, entered⟩ := ih t
      rw [(outcome_stepPiece_along path path').mp stepped]
      exact ⟨last, short, by simp [entered]⟩

/-- A walk that succeeds is along segments. -/
theorem exists_segments_of_walkPieces
    (h : (scope.view.walkPieces limit path s pieces).outcome = .ok t) :
    ∃ segments : List Segment, pieces = segments.map .segment := by
  induction pieces generalizing s with
  | nil => exact ⟨[], rfl⟩
  | cons piece pieces ih =>
    rw [View.walkPieces_cons] at h
    obtain ⟨m, stepped, walked⟩ := Trail.exists_of_outcome_bind h
    obtain ⟨segment, rfl, _⟩ := outcome_stepPiece_ok_iff.mp stepped
    obtain ⟨segments, rfl⟩ := ih walked
    exact ⟨segment :: segments, rfl⟩

/-! ## Schemas on the way -/

/-- A path steps through the wrappers before one of its moves and the schema that the move goes on
from. -/
def StepsThrough (scope : Scope) (limit : Nat) (s : Schema) (segments : List Segment)
    (u : Schema) : Prop :=
  ∃ before segment after m n, segments = before ++ segment :: after ∧
    scope.Travels limit s before m ∧ scope.Behind n m u

theorem not_stepsThrough_nil (s u : Schema) : ¬ scope.StepsThrough limit s [] u := by
  rintro ⟨before, segment, after, _, _, split, _⟩
  simp at split

theorem stepsThrough_cons_iff {segment : Segment} {rest : List Segment} :
    scope.StepsThrough limit s (segment :: rest) u ↔
      (∃ n, scope.Behind n s u) ∨
        ∃ t, scope.Moves limit s segment t ∧ scope.StepsThrough limit t rest u := by
  constructor
  · rintro ⟨before, next, after, m, n, split, travels, behind⟩
    cases travels with
    | nil => exact .inl ⟨n, behind⟩
    | @cons _ t _ _ before moves travels =>
      obtain ⟨rfl, rfl⟩ := List.cons.inj split
      exact .inr ⟨t, moves, before, next, after, m, n, rfl, travels, behind⟩
  · rintro (⟨n, behind⟩ | ⟨t, moves, before, next, after, m, n, rfl, travels, behind⟩)
    · exact ⟨[], segment, rest, s, n, rfl, .nil, behind⟩
    · exact ⟨segment :: before, next, after, m, n, rfl, .cons moves travels, behind⟩

/-! ## Lazy schemas without a target -/

/-- A lazy schema without a target is entered last, and once. -/
def Stops (scope : Scope) {α : Type} (t : Trail Schema α) : Prop :=
  ∀ id failure, scope.target id = .error failure → .lazy id ∈ t.entered →
    (∃ before, t.entered = before ++ [.lazy id] ∧ .lazy id ∉ before) ∧
      ∃ failure, t.outcome = .error failure

theorem Stops.bind {α β : Type} {t : Trail Schema α} {f : α → Trail Schema β}
    (ht : scope.Stops t) (hf : ∀ a, scope.Stops (f a)) : scope.Stops (t >>= f) := by
  intro id failure found
  cases outcome : t.outcome with
  | error failure' =>
    rw [Trail.bind_of_error outcome]
    intro hmem
    exact ⟨(ht id failure found hmem).1, _, rfl⟩
  | ok a =>
    rw [Trail.bind_of_ok outcome]
    intro hmem
    have notBefore : .lazy id ∉ t.entered := by
      intro h
      obtain ⟨_, _, fails⟩ := ht id failure found h
      rw [outcome] at fails
      cases fails
    obtain ⟨⟨before, last, once⟩, fails⟩ :=
      hf a id failure found ((List.mem_append.mp hmem).resolve_left notBefore)
    refine ⟨⟨t.entered ++ before, ?_, ?_⟩, fails⟩
    · rw [last, List.append_assoc]
    · intro h
      exact (List.mem_append.mp h).elim notBefore once

theorem Stops.of_entered_nil {α : Type} {t : Trail Schema α} (h : t.entered = []) :
    scope.Stops t := by
  intro id _ _ hmem
  rw [h] at hmem
  cases hmem

theorem stops_unwrapWithin : scope.Stops (scope.view.unwrapWithin exceeded budget s) := by
  induction budget generalizing s with
  | zero => exact .of_entered_nil View.entered_unwrapWithin_zero
  | succ budget ih =>
    cases wrapper : s.isWrapper with
    | false =>
      rw [View.unwrapWithin_of_solid (by simpa using wrapper)]
      exact .of_entered_nil rfl
    | true =>
      rw [View.unwrapWithin_succ (by simpa using wrapper)]
      refine Stops.bind ?_ fun _ => ih
      intro id failure found hmem
      obtain rfl := List.mem_singleton.mp hmem
      exact ⟨⟨[], rfl, List.not_mem_nil⟩, failure, found⟩

theorem stops_stepPiece : scope.Stops (scope.view.stepPiece limit path s piece) := by
  cases piece with
  | segment segment => exact stops_unwrapWithin.bind fun _ => .of_entered_nil rfl
  | keyed key =>
    refine stops_unwrapWithin.bind fun u => .of_entered_nil ?_
    split
    · split <;> rfl
    · rfl
  | other v => exact stops_unwrapWithin.bind fun _ => .of_entered_nil rfl

theorem stops_walkPieces : scope.Stops (scope.view.walkPieces limit path s pieces) := by
  induction pieces generalizing s with
  | nil => exact .of_entered_nil rfl
  | cons piece pieces ih =>
    rw [View.walkPieces_cons]
    exact stops_stepPiece.bind fun _ => ih

end Scope

end Schemata
