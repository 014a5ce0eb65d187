import Schemata.Proofs.Session.Changes
import Schemata.Proofs.Traversal.Entered

/-!
# Getters of lazy schemas

Which getters of lazy schemas run, and how often. Once a getter has given a schema it never runs
again, whatever a session does. Following a path runs the getters of the lazy schemas that stand
before some step of the path and have no target yet.
-/

namespace Schemata

/-! ## Asking for targets -/

namespace CallLog

variable {log log' log'' : CallLog} {scope : Scope} {id id' : NodeId}
  {runs runs' : List (NodeId × Bool)}

theorem ask_of_forced (h : id ∈ log.forced) : ask scope log id = log := by
  simp [ask, h]

theorem ask_of_not_forced (h : id ∉ log.forced) : ask scope log id =
    { runs := id :: log.runs
      forced := if (scope.target id).isOk then id :: log.forced else log.forced } := by
  simp [ask, h]

theorem mem_forced_ask (h : id ∈ log.forced) : id ∈ (ask scope log id').forced := by
  by_cases known : id' ∈ log.forced
  · rwa [ask_of_forced known]
  · rw [ask_of_not_forced known]
    dsimp only
    split
    · exact List.mem_cons_of_mem _ h
    · exact h

theorem count_ask_of_ne (h : id' ≠ id) : (ask scope log id').count id = log.count id := by
  by_cases known : id' ∈ log.forced
  · rw [ask_of_forced known]
  · rw [ask_of_not_forced known]
    exact List.count_cons_of_ne h

/-- The runs of getters that lead from one log to another, each with whether it gave a schema. What
the getters give may change between the runs. -/
inductive Follows : CallLog → List (NodeId × Bool) → CallLog → Prop
  | nil {log : CallLog} : Follows log [] log
  | cons {log log' : CallLog} {scope : Scope} {id : NodeId} {runs : List (NodeId × Bool)} :
    id ∉ log.forced → Follows (ask scope log id) runs log' →
    Follows log ((id, (scope.target id).isOk) :: runs) log'

namespace Follows

theorem append (h : Follows log runs log') (h' : Follows log' runs' log'') :
    Follows log (runs ++ runs') log'' := by
  induction h with
  | nil => exact h'
  | cons new _ ih => exact .cons new (ih h')

theorem askAll (scope : Scope) (log : CallLog) (ids : List NodeId) :
    ∃ runs, Follows log runs (log.askAll scope ids) := by
  induction ids generalizing log with
  | nil => exact ⟨[], .nil⟩
  | cons id ids ih =>
    obtain ⟨runs, follows⟩ := ih (ask scope log id)
    by_cases known : id ∈ log.forced
    · rw [ask_of_forced known] at follows
      refine ⟨runs, ?_⟩
      rwa [CallLog.askAll, List.foldl_cons, ask_of_forced known]
    · exact ⟨_, .cons known follows⟩

theorem runs_eq (h : Follows log runs log') :
    log'.runs = (runs.map Prod.fst).reverse ++ log.runs := by
  induction h with
  | nil => rfl
  | cons new _ ih =>
    rw [ih, ask_of_not_forced new]
    simp

/-- The getter of a lazy schema with a target does not run. -/
theorem ne_of_forced (h : Follows log runs log') (known : id ∈ log.forced) :
    ∀ run ∈ runs, run.1 ≠ id := by
  induction h with
  | nil => exact fun _ h => (List.not_mem_nil h).elim
  | cons new _ ih =>
    intro run hrun
    rcases List.mem_cons.mp hrun with rfl | hrun
    · rintro rfl
      exact new known
    · exact ih (mem_forced_ask known) run hrun

theorem count_of_forced (h : Follows log runs log') (known : id ∈ log.forced) :
    log'.count id = log.count id := by
  have idle : id ∉ (runs.map Prod.fst).reverse := by
    rw [List.mem_reverse, List.mem_map]
    rintro ⟨run, hrun, rfl⟩
    exact h.ne_of_forced known run hrun rfl
  rw [count, h.runs_eq, List.count_append, List.count_eq_zero.mpr idle, Nat.zero_add]
  rfl

/-- Behind a run that gave a schema, the getter does not run. -/
theorem pairwise (h : Follows log runs log') :
    runs.Pairwise fun run later => run.2 = true → later.1 ≠ run.1 := by
  induction h with
  | nil => exact .nil
  | @cons log _ scope id _ new follows ih =>
    refine .cons (fun later hlater gave => ?_) ih
    refine follows.ne_of_forced ?_ later hlater
    rw [ask_of_not_forced new, if_pos gave]
    exact List.mem_cons_self

end Follows

/-- Asking runs at most one getter each time. -/
theorem length_runs_askAll (scope : Scope) (log : CallLog) (ids : List NodeId) :
    (log.askAll scope ids).runs.length ≤ log.runs.length + ids.length := by
  induction ids generalizing log with
  | nil => exact Nat.le_refl _
  | cons id ids ih =>
    have rest := ih (ask scope log id)
    have first : (ask scope log id).runs.length ≤ log.runs.length + 1 := by
      by_cases new : id ∈ log.forced
      · rw [ask_of_forced new]
        exact Nat.le_succ _
      · rw [ask_of_not_forced new]
        exact Nat.le_refl _
    simp only [askAll, List.foldl_cons, List.length_cons] at rest ⊢
    omega

/-- A getter does not run unless its lazy schema is asked. -/
theorem count_askAll_of_not_mem {ids : List NodeId} (h : id ∉ ids) :
    (log.askAll scope ids).count id = log.count id := by
  induction ids generalizing log with
  | nil => rfl
  | cons id' ids ih =>
    have rest : ((ask scope log id').askAll scope ids).count id = (ask scope log id').count id :=
      ih (List.not_mem_of_not_mem_cons h)
    exact rest.trans (count_ask_of_ne (Ne.symm (List.ne_of_not_mem_cons h)))

/-- A getter that gives a schema runs once, however often its lazy schema is asked. One that fails
runs each time. -/
theorem count_askAll_of_mem {ids : List NodeId} (hid : id ∈ ids) (new : id ∉ log.forced)
    (once : (scope.target id).isOk = false → ids.count id = 1) :
    (log.askAll scope ids).count id = log.count id + 1 := by
  induction ids generalizing log with
  | nil => cases hid
  | cons id' ids ih =>
    -- The first time the getter runs. What it gives is remembered, and if it fails, there is no
    -- second time.
    by_cases heq : id' = id
    · subst heq
      have first : (ask scope log id').count id' = log.count id' + 1 := by
        rw [ask_of_not_forced new]
        exact List.count_cons_self
      cases given : (scope.target id').isOk with
      | true =>
        have kept : id' ∈ (ask scope log id').forced := by
          rw [ask_of_not_forced new, given]
          exact List.mem_cons_self
        obtain ⟨runs, follows⟩ := Follows.askAll scope (ask scope log id') ids
        exact (follows.count_of_forced kept).trans first
      | false =>
        have last : id' ∉ ids := by
          have single := once given
          rw [List.count_cons_self] at single
          exact List.count_eq_zero.mp (by omega)
        exact (count_askAll_of_not_mem last).trans first
    · have hids : id ∈ ids := (List.mem_cons.mp hid).resolve_left (Ne.symm heq)
      have still : id ∉ (ask scope log id').forced := by
        by_cases known : id' ∈ log.forced
        · rwa [ask_of_forced known]
        · rw [ask_of_not_forced known]
          dsimp only
          split
          · exact List.not_mem_cons_of_ne_of_not_mem (Ne.symm heq) new
          · exact new
      have rest := ih hids still fun fails => by
        rw [← once fails, List.count_cons_of_ne heq]
      exact rest.trans (by rw [count_ask_of_ne heq])

end CallLog

namespace Session

/-! ## Sessions -/

/-- Nothing happens to the log of a session but runs of getters. -/
def CallsGrow (σ σ' : Session) : Prop :=
  ∃ runs, CallLog.Follows σ.calls runs σ'.calls

instance : IsPreorder Session CallsGrow where
  refl _ := ⟨[], .nil⟩
  trans _ _ _ := fun ⟨_, h⟩ ⟨_, h'⟩ => ⟨_, h.append h'⟩

theorem callsGrow_of_same {σ σ' : Session} (h : σ'.calls = σ.calls) : σ.CallsGrow σ' :=
  ⟨[], h ▸ .nil⟩

variable {compiled : Schema → Prop} {P : Nat → Prop}

theorem Change.callsGrow {σ σ' : Session} (h : Change compiled σ σ') : σ.CallsGrow σ' := by
  cases h with
  | asks ids => exact CallLog.Follows.askAll _ _ ids
  | derives s => exact CallLog.Follows.askAll _ _ _
  | _ => exact callsGrow_of_same rfl

theorem Changes.callsGrow {σ σ' : Session} (h : Changes compiled P σ σ')
    (hP : P σ.settings.maxUnwrapDepth) : σ.CallsGrow σ' := by
  have steps := h hP
  clear h
  induction steps with
  | refl => exact refl σ
  | tail _ step ih => exact trans_of CallsGrow ih step.1.callsGrow

theorem callsGrow_of_changes {α : Type} {m : Activity α}
    (h : Keeps (Changes (fun _ => True) fun _ => True) m) : Keeps CallsGrow m :=
  h.imp fun _ _ changes => changes.callsGrow trivial

theorem keeps_callsGrow_prepare (defs : List (String × Blueprint))
    (types : List (String × Declaration)) : Keeps CallsGrow (prepare defs types) := by
  refine keeps_prepare (fun t => callsGrow_of_changes (keeps_makeType t))
    (fun _ _ _ => callsGrow_of_same rfl) (fun name b σ => ?_) defs types
  rw [exec_making]
  cases Blueprint.defineAll [(name, b)] σ.workshop <;> exact callsGrow_of_same rfl

/-! ## Paths -/

/-- The lazy schemas that a path asks for their targets are those that it passes through. -/
theorem mem_asked_iff {scope : Scope} {limit : Nat} {text : String} {root : Schema}
    {pieces : List Piece} {id : NodeId} :
    id ∈ (scope.view.walkPieces limit text root pieces).entered.filterMap Schema.lazyId? ↔
      scope.Passes limit root pieces (.lazy id) := by
  rw [← Scope.mem_entered_walkPieces rfl text, List.mem_filterMap]
  constructor
  · rintro ⟨s, hs, hid⟩
    cases s <;> cases hid
    exact hs
  · exact fun h => ⟨_, h, rfl⟩

/-- A lazy schema without a target is asked at most once. -/
theorem count_asked {scope : Scope} {limit : Nat} {text : String} {root : Schema}
    {pieces : List Piece} {id : NodeId} (h : (scope.target id).isOk = false)
    (asked : .lazy id ∈ (scope.view.walkPieces limit text root pieces).entered) :
    ((scope.view.walkPieces limit text root pieces).entered.filterMap Schema.lazyId?).count id
      = 1 := by
  cases found : scope.target id with
  | ok s =>
    rw [found] at h
    cases h
  | error failure =>
    obtain ⟨⟨before, last, once⟩, _⟩ := Scope.stops_walkPieces id failure found asked
    have unasked : id ∉ before.filterMap Schema.lazyId? := by
      rw [List.mem_filterMap]
      rintro ⟨s, hs, hid⟩
      cases s <;> cases hid
      exact once hs
    rw [last, List.filterMap_append, List.count_append, List.count_eq_zero.mpr unasked]
    simp [Schema.lazyId?]

/-- The getters that following a path runs are those of the lazy schemas without a target that it
passes through. -/
theorem calls_schemaAt {path : PathArgument} {text : String} {pieces : List Piece}
    (h : path.coerce = .ok (text, pieces)) (root : Schema) (σ : Session) :
    let passed := fun id => σ.workshop.scope.Passes σ.settings.maxUnwrapDepth root pieces (.lazy id)
    let calls := ((schemaAt (.schema root) path).exec σ).2.calls
    (∀ id, passed id ∧ id ∉ σ.calls.forced → calls.count id = σ.calls.count id + 1) ∧
      (∀ id, ¬ (passed id ∧ id ∉ σ.calls.forced) → calls.count id = σ.calls.count id) ∧
      calls.runs.length ≤ σ.calls.runs.length + pieces.length * σ.settings.maxUnwrapDepth := by
  intro passed calls
  let entered :=
    (σ.workshop.scope.view.walkPieces σ.settings.maxUnwrapDepth text root pieces).entered
  have resolved : σ.workshop.scope.resolve σ.settings.maxUnwrapDepth root path
      = (σ.workshop.scope.view.walkPieces σ.settings.maxUnwrapDepth text root pieces).filterMap
          Schema.lazyId? := by
    simp only [Scope.resolve, h]
  have hcalls : calls = σ.calls.askAll σ.workshop.scope (entered.filterMap Schema.lazyId?) := by
    dsimp only [calls]
    rw [exec_schemaAt_resolve, resolved]
    rfl
  rw [hcalls]
  refine ⟨fun id hid => ?_, fun id hid => ?_, ?_⟩
  · obtain ⟨hpassed, new⟩ := hid
    have asked : id ∈ entered.filterMap Schema.lazyId? := mem_asked_iff.mpr hpassed
    refine CallLog.count_askAll_of_mem asked new fun fails => ?_
    exact count_asked fails ((Scope.mem_entered_walkPieces rfl text).mpr hpassed)
  · by_cases asked : passed id
    · have known : id ∈ σ.calls.forced := by
        by_contra new
        exact hid ⟨asked, new⟩
      obtain ⟨runs, follows⟩ := CallLog.Follows.askAll _ σ.calls (entered.filterMap Schema.lazyId?)
      exact follows.count_of_forced known
    · exact CallLog.count_askAll_of_not_mem fun h => asked (mem_asked_iff.mp h)
  · have bound : (entered.filterMap Schema.lazyId?).length ≤ pieces.length * _ :=
      (List.length_filterMap_le _ _).trans (View.length_entered_walkPieces ..)
    exact (CallLog.length_runs_askAll _ _ _).trans (Nat.add_le_add_left bound _)

/-- A path that is one step longer runs at most as many getters more as the limit allows. -/
theorem calls_schemaAt_concat {path path' : PathArgument} {text text' : String}
    {pieces : List Piece} {piece : Piece} (h : path.coerce = .ok (text, pieces))
    (h' : path'.coerce = .ok (text', pieces ++ [piece])) (root : Schema) (σ : Session) :
    ((schemaAt (.schema root) path').exec σ).2.calls.runs.length
      ≤ ((schemaAt (.schema root) path).exec σ).2.calls.runs.length
        + σ.settings.maxUnwrapDepth := by
  obtain ⟨last, short, entered⟩ := σ.workshop.scope.entered_walkPieces_concat
    σ.settings.maxUnwrapDepth text text' root pieces piece
  have asked : ((schemaAt (.schema root) path').exec σ).2.calls
      = ((schemaAt (.schema root) path).exec σ).2.calls.askAll σ.workshop.scope
          (last.filterMap Schema.lazyId?) := by
    rw [exec_schemaAt_resolve, exec_schemaAt_resolve]
    simp only [Scope.resolve, h, h']
    change σ.calls.askAll _ (List.filterMap _ _) = CallLog.askAll _ (σ.calls.askAll _ _) _
    rw [entered, List.filterMap_append]
    exact List.foldl_append
  rw [asked]
  refine (CallLog.length_runs_askAll _ _ _).trans (Nat.add_le_add_left ?_ _)
  exact (List.length_filterMap_le _ _).trans short

/-- A path that is malformed or empty runs no getter. -/
theorem calls_schemaAt_of_empty {path : PathArgument}
    (h : ∀ text piece pieces, path.coerce ≠ .ok (text, piece :: pieces)) (root : Schema)
    (σ : Session) : ((schemaAt (.schema root) path).exec σ).2.calls = σ.calls := by
  rw [exec_schemaAt_resolve]
  cases coerced : path.coerce with
  | error failure =>
    simp only [Scope.resolve, coerced]
    rfl
  | ok read =>
    obtain ⟨text, pieces⟩ := read
    cases pieces with
    | cons piece pieces => exact (h text piece pieces coerced).elim
    | nil =>
      simp only [Scope.resolve, coerced]
      rfl

theorem calls_outputAt (t : StaticType) (path : PathArgument) (σ : Session) :
    ((do outputOfType (← typeAtPath t path) : Activity StaticType).exec σ).2.calls = σ.calls := by
  rw [Stateful.exec_bind, exec_typeAtPath]
  cases σ.registry.names.typeAt σ.settings.maxUnwrapDepth t path with
  | error failure => rfl
  | ok u => simp only [exec_outputOfType]

/-- In a session, the getter of a lazy schema gives a schema at most once and never runs after that,
whatever is asked of the session. Following a path runs exactly the getters of the lazy schemas
without a target that it passes through; there are at most as many to a step as the limit allows. A
malformed or empty path runs no getter, nor does looking up types and output types. -/
theorem getters_run_lazily :
    (∀ defs types requests,
      let prepared := ((prepare defs types).exec initial).2
      let σ := ((Request.performAll requests).exec prepared).2
      ∃ runs : List (NodeId × Bool), CallLog.Follows .empty runs σ.calls ∧
        σ.calls.runs = (runs.map Prod.fst).reverse ∧
        runs.Pairwise fun run later => run.2 = true → later.1 ≠ run.1) ∧
    (∀ σ root path text pieces, path.coerce = .ok (text, pieces) →
      let passed := fun id =>
        σ.workshop.scope.Passes σ.settings.maxUnwrapDepth root pieces (.lazy id)
      let calls := ((schemaAt (.schema root) path).exec σ).2.calls
      (∀ id, passed id ∧ id ∉ σ.calls.forced → calls.count id = σ.calls.count id + 1) ∧
      (∀ id, ¬ (passed id ∧ id ∉ σ.calls.forced) → calls.count id = σ.calls.count id) ∧
      calls.runs.length ≤ σ.calls.runs.length + pieces.length * σ.settings.maxUnwrapDepth ∧
      ∀ path' text' piece, path'.coerce = .ok (text', pieces ++ [piece]) →
        ((schemaAt (.schema root) path').exec σ).2.calls.runs.length
          ≤ calls.runs.length + σ.settings.maxUnwrapDepth) ∧
    (∀ σ root path, (∀ text piece pieces, path.coerce ≠ .ok (text, piece :: pieces)) →
      ((schemaAt (.schema root) path).exec σ).2.calls = σ.calls) ∧
    (∀ σ t path, ((typeAtPath t path).exec σ).2.calls = σ.calls ∧
      ((do outputOfType (← typeAtPath t path) : Activity StaticType).exec σ).2.calls = σ.calls) := by
  refine ⟨fun defs types requests => ?_, fun σ root path text pieces h => ?_,
    fun σ root path h => calls_schemaAt_of_empty h root σ,
    fun σ t path => ⟨?_, calls_outputAt t path σ⟩⟩
  · intro prepared σ
    have asks : Keeps CallsGrow (Request.performAll requests) :=
      callsGrow_of_changes (Request.keeps_performAll (Request.admitsAll_true requests))
    obtain ⟨runs, follows⟩ : CallsGrow initial σ :=
      trans_of CallsGrow (keeps_callsGrow_prepare defs types initial) (asks prepared)
    exact ⟨runs, follows, follows.runs_eq.trans (List.append_nil _), follows.pairwise⟩
  · obtain ⟨passing, others, few⟩ := calls_schemaAt h root σ
    exact ⟨passing, others, few, fun path' text' piece h' => calls_schemaAt_concat h h' root σ⟩
  · rw [exec_typeAtPath]

/-- A session after a path was followed through the grid. -/
def followed (σ : Session) (path : String) : Session :=
  ((schemaAt (.schema grid) (.text path)).exec σ).2

theorem followed_frame (σ : Session) (path : String) :
    (followed σ path).workshop = σ.workshop ∧ (followed σ path).settings = σ.settings := by
  rw [followed, exec_schemaAt_resolve]
  exact ⟨rfl, rfl⟩

/-- The getter of the rows does not run for a path that ends at the lazy schema. It runs when a path
goes on behind it, and not a second time. -/
theorem getters_run_lazily_grid :
    PathArgument.coerce (.text "rows") = .ok ("rows", [.segment (.property "rows")]) ∧
      PathArgument.coerce (.text "rows[]")
        = .ok ("rows[]", [.segment (.property "rows"), .segment .element]) ∧
      (followed withGrid "rows").calls.count 0 = 0 ∧
      (followed (followed withGrid "rows") "rows[]").calls.count 0 = 1 ∧
      (followed (followed (followed withGrid "rows") "rows[]") "rows[]").calls.count 0 = 1 := by
  have short : PathArgument.coerce (.text "rows")
      = .ok ("rows", [.segment (.property "rows")]) := by cbv
  have long : PathArgument.coerce (.text "rows[]")
      = .ok ("rows[]", [.segment (.property "rows"), .segment .element]) := by cbv
  let scope := withGrid.workshop.scope
  have toRows : scope.Moves 64 grid (.property "rows") (.wrapper 2 .optional (.lazy 0)) :=
    ⟨0, grid, Nat.zero_le _, .zero, rfl, .property rfl⟩
  have passes : scope.Passes 64 grid [.segment (.property "rows"), .segment .element] (.lazy 0) :=
    ⟨_, .segment .element, [], _, 1, rfl, .cons toRows .nil, by decide, .succ .inner .zero⟩
  have ends : ¬ scope.Passes 64 grid [.segment (.property "rows")] (.lazy 0) := by
    rintro ⟨segments, piece, after, m, n, split, travels, _, behind⟩
    cases travels with
    | nil =>
      cases behind with
      | succ opens _ => cases opens
    | cons _ _ => simp at split
  have unknown : (followed withGrid "rows").calls.forced = [] := by cbv
  have known : (followed (followed withGrid "rows") "rows[]").calls.forced = [0] := by cbv
  have none : (followed withGrid "rows").calls.count 0 = 0 :=
    (getters_run_lazily.2.1 withGrid grid _ _ _ short).2.1 0 fun h => ends h.1
  have one : (followed (followed withGrid "rows") "rows[]").calls.count 0 = 1 := by
    have first := (getters_run_lazily.2.1 (followed withGrid "rows") grid _ _ _ long).1 0
    rw [(followed_frame withGrid "rows").1, (followed_frame withGrid "rows").2] at first
    exact (first ⟨passes, unknown ▸ List.not_mem_nil⟩).trans (congrArg (· + 1) none)
  have still := (getters_run_lazily.2.1 _ grid _ _ _ long).2.1 0 fun h =>
    h.2 (known ▸ List.mem_cons_self)
  exact ⟨short, long, none, one, still.trans one⟩

end Session

end Schemata
