import Mathlib
import Schemata.Proofs.Compilation.Success
import Schemata.Proofs.Validation.Descent

/-!
# The schema that is responsible for a part

If a schema accepts a value, the schema at a path accepts the parts at the places that the path
stands for, with the results that stand there. The two schemas are compiled apart, and on its way to
a part a value opens references that the part alone does not open. Near the limit of open
references, a union may take another choice for that.
-/

namespace Schemata

namespace Validator

/-- What validating the value gives does not change when more references may be open at once. -/
def Settles (validator : Validator) (v : Value) : Prop :=
  ∀ depth, referenceLimit ≤ depth →
    (validator.root.check validator.definitions depth validator.definitions [] v .initial).toExcept
      = validator.validate v

end Validator

namespace Scope

variable {scope : Scope} {limit : Nat} {s m : Schema} {segments : List Segment}

/-- A path that leads somewhere is a sequence of segments. -/
theorem exists_travels_of_resolve {path : PathArgument}
    (resolved : (scope.resolve limit s path).outcome = .ok m) :
    ∃ text segments, path.coerce = .ok (text, segments.map .segment) ∧
      scope.Travels limit s segments m := by
  unfold resolve at resolved
  split at resolved
  · cases resolved
  next text pieces coerced =>
    have walked : (scope.view.walkPieces limit text s pieces).outcome = .ok m := resolved
    obtain ⟨segments, rfl⟩ := exists_segments_of_walkPieces walked
    rw [View.walkPieces_map_segment] at walked
    exact ⟨text, segments, coerced, outcome_walk_ok_iff.mp walked⟩

theorem segments_unique {path : PathArgument} {text text' : String}
    {segments segments' : List Segment} (h : path.coerce = .ok (text, segments.map .segment))
    (h' : path.coerce = .ok (text', segments'.map .segment)) : segments = segments' := by
  have same := (Prod.mk.inj (Except.ok.inj (h.symm.trans h'))).2
  exact List.map_injective_iff.mpr (fun _ _ h => Piece.segment.inj h) same

/-- If a schema accepts a value, the schema at a path accepts the parts of the value that the path
stands for, provided that the path chooses no option of a union and steps into no pipe on its way.
If there is no record on the way either, the result of a part stands where the part stood. Unless no
union is built for the schema at the path, what becomes of the value must not depend on how many
references may be open. -/
theorem resolve_accepts_part {path : PathArgument} {text : String} {validator : Validator}
    {v r x : Value} {spots : List Spot} (compiled : (scope.compile limit s).outcome = .ok validator)
    (accepted : validator.validate v = .ok r)
    (given : path.coerce = .ok (text, segments.map .segment))
    (resolved : (scope.resolve limit s path).outcome = .ok m)
    (plain : ∀ u, scope.StepsThrough limit s segments u → u.kind ≠ .union ∧ u.kind ≠ .pipe)
    (located : List.Forall₂ Segment.Locates segments spots) (part : v.partAt? spots = some x)
    (settled : scope.Unionless limit m ∨ validator.Settles v) :
    ∃ responsible result, (scope.compile limit m).outcome = .ok responsible ∧
      responsible.validate x = .ok result ∧
      ((∀ u, scope.StepsThrough limit s segments u → u.kind ≠ .record) →
        r.partAt? spots = some result) := by
  obtain ⟨_, _, given', travels⟩ := exists_travels_of_resolve resolved
  obtain rfl := segments_unique given given'
  obtain ⟨d, hdefinitions, finished⟩ := compile_finished compiled
  obtain ⟨k, q, hq, descends⟩ := finished.parts_taken travels plain finished.plans
  obtain ⟨responsible, hresponsible⟩ :=
    compile_isOk_iff.mpr (finished.compilable_of_plans hq)
  obtain ⟨d', hdefinitions', finished'⟩ := compile_finished hresponsible
  -- As many references may be open below as the limit allows, or fewer if no union can notice.
  have taken : ∃ depth known result, depth ≤ Validator.referenceLimit ∧
      Completed d.definitions known ∧
      (depth = Validator.referenceLimit ∨ scope.Unionless limit m) ∧
      (q.check d.definitions depth known).Takes x result ∧
      ((∀ u, scope.StepsThrough limit s segments u → u.kind ≠ .record) →
        r.partAt? spots = some result) := by
    rcases settled with unionless | settles
    · obtain ⟨st, hrun⟩ := Verdict.toExcept_eq_ok_iff.mp accepted
      rw [Validator.run, hdefinitions] at hrun
      obtain ⟨depth, known, result, hdepth, complete, taken, inPlace⟩ :=
        descends .root ⟨_, st, hrun⟩ located part
      exact ⟨depth, known, result, by omega, complete, .inr unionless, taken, inPlace⟩
    · obtain ⟨st, hrun⟩ := Verdict.toExcept_eq_ok_iff.mp
        ((settles (Validator.referenceLimit + k) (Nat.le_add_right _ _)).trans accepted)
      rw [hdefinitions] at hrun
      obtain ⟨depth, known, result, hdepth, complete, taken, inPlace⟩ :=
        descends .root ⟨_, st, hrun⟩ located part
      obtain rfl := Nat.add_right_cancel hdepth
      exact ⟨_, known, result, Nat.le_refl _, complete, .inl rfl, taken, inPlace⟩
  obtain ⟨depth, known, result, hdepth, complete, plain', ⟨st, st', hresult⟩, inPlace⟩ := taken
  have alike :=
    finished.check_matches finished' hdepth id complete .root plain' hq finished'.plans
  obtain ⟨_, hvalid, _⟩ := (alike (.nil d d') Standing.congruence_true x
    (trivial : (fun _ _ => True) st Standing.initial)).exists_accepted hresult
  refine ⟨responsible, result, hresponsible, ?_, inPlace⟩
  rw [Validator.validate, Validator.run, hdefinitions', hvalid]
  rfl

/-! ## Linked nodes -/

/-- The leaf of a linked node is another node, or anything. -/
def linkedLeaf : Schema :=
  .wrapper 5 .nullable (.union 4 [.lazy 0, .leaf 1 .any])

/-- What a linked node is linked to. -/
def linkedNext : Schema :=
  .wrapper 3 .nullable (.lazy 0)

def linked : Schema :=
  .object 2 [("next", linkedNext), ("leaf", linkedLeaf)]

/-- A scope in which the linked nodes are defined. -/
def withLinked : Scope :=
  { defs := [("NODE", .schema linked)], getters := [(0, .named "NODE")] }

def linkedLeafPlan : Plan :=
  .nullable (.union [.reference 0, .any])

def linkedPlan : Plan :=
  .object [{ name := "next", plan := .nullable (.reference 0), required := true },
    { name := "leaf", plan := linkedLeafPlan, required := true }]

theorem linked_compiles : (withLinked.compile 64 linked).outcome
    = .ok { root := linkedPlan, definitions := [(0, linkedPlan)] } := by
  cbv

theorem linkedLeaf_compiles : (withLinked.compile 64 linkedLeaf).outcome
    = .ok { root := linkedLeafPlan, definitions := [(0, linkedPlan)] } := by
  cbv

/-- The value of a linked node. -/
def node (next leaf : Value) : Value :=
  .dict [(.str "next", next), (.str "leaf", leaf)]

/-- A node with an entry that does not belong to it. -/
def spoiltNode : Value :=
  .dict [(.str "next", .none), (.str "leaf", .none), (.str "extra", .int 0)]

/-- A value behind `n` nodes. -/
def chained : Nat → Value → Value
  | 0, v => v
  | n + 1, v => node (chained n v) .none

/-- The segments that lead to the leaf behind `n` nodes. -/
def toLeaf : Nat → List Segment
  | 0 => [.property "leaf"]
  | n + 1 => .property "next" :: toLeaf n

/-- The places that lead to the leaf behind `n` nodes. -/
def atLeaf : Nat → List Spot
  | 0 => [.key "leaf"]
  | n + 1 => .key "next" :: atLeaf n

theorem toLeaf_located (n : Nat) : List.Forall₂ Segment.Locates (toLeaf n) (atLeaf n) := by
  induction n with
  | zero => exact .cons .property .nil
  | succ n ih => exact .cons .property ih

theorem partAt?_chained (n : Nat) (next leaf : Value) :
    (chained n (node next leaf)).partAt? (atLeaf n) = some leaf := by
  induction n with
  | zero => cbv
  | succ n ih =>
    have inside : (chained (n + 1) (node next leaf)).part? (.key "next")
        = some (chained n (node next leaf)) := by cbv
    rw [atLeaf, Value.partAt?, inside]
    exact ih

/-- The schemas on the way along linked nodes. -/
def OnLink (s : Schema) : Prop :=
  s = linked ∨ s = linkedNext ∨ s = .lazy 0

theorem OnLink.behind {n : Nat} {s u : Schema} (behind : withLinked.Behind n s u) (h : OnLink s) :
    OnLink u := by
  induction behind with
  | zero => exact h
  | succ opens _ ih =>
    refine ih ?_
    rcases h with rfl | rfl | rfl
    · cases opens
    · cases opens
      exact .inr (.inr rfl)
    · cases opens with
      | target found =>
        cases found
        exact .inl rfl

theorem OnLink.next {s t : Schema} (moves : withLinked.Moves 64 s (.property "next") t)
    (h : OnLink s) : OnLink t := by
  obtain ⟨n, u, _, behind, solid, child⟩ := moves
  rcases h.behind behind with rfl | rfl | rfl
  · cases child with
    | property hs =>
      cases hs
      exact .inr (.inl rfl)
  · cases solid
  · cases solid

theorem OnLink.stepsThrough {n : Nat} {s u : Schema} (h : OnLink s)
    (through : withLinked.StepsThrough 64 s (toLeaf n) u) : OnLink u := by
  induction n generalizing s with
  | zero =>
    rcases stepsThrough_cons_iff.mp through with ⟨n, behind⟩ | ⟨t, _, through⟩
    · exact h.behind behind
    · exact absurd through (not_stepsThrough_nil t u)
  | succ n ih =>
    rcases stepsThrough_cons_iff.mp through with ⟨n, behind⟩ | ⟨t, moves, through⟩
    · exact h.behind behind
    · exact ih (h.next moves) through

theorem OnLink.kind {s : Schema} (h : OnLink s) :
    s.kind ≠ .union ∧ s.kind ≠ .pipe ∧ s.kind ≠ .record := by
  rcases h with rfl | rfl | rfl <;> decide

theorem travels_toLeaf {j : Nat} {s : Schema} (behind : withLinked.Behind j s linked) (hj : j ≤ 64)
    (n : Nat) : withLinked.Travels 64 s (toLeaf n) linkedLeaf := by
  induction n generalizing j s with
  | zero => exact .cons ⟨j, linked, hj, behind, rfl, .property rfl⟩ .nil
  | succ n ih =>
    have next : withLinked.Behind 2 linkedNext linked := .succ .inner (.succ (.target rfl) .zero)
    exact .cons ⟨j, linked, hj, behind, rfl, .property rfl⟩ (ih next (by decide))

theorem linked_settles :
    ({ root := linkedPlan, definitions := [(0, linkedPlan)] } : Validator).Settles
      (node .none spoiltNode) := by
  intro depth enough
  obtain ⟨rest, rfl⟩ := Nat.exists_eq_add_of_le' (Nat.le_trans (by decide : 1 ≤ 254) enough)
  cbv

/-- A leaf that is a node with an entry too many is read without it, by itself as in its place. -/
theorem resolve_accepts_part_linked :
    ∃ responsible result, (withLinked.compile 64 linkedLeaf).outcome = .ok responsible ∧
      responsible.validate spoiltNode = .ok result ∧
      (node .none (node .none .none)).partAt? [.key "leaf"] = some result := by
  have accepted : ({ root := linkedPlan, definitions := [(0, linkedPlan)] } : Validator).validate
      (node .none spoiltNode) = .ok (node .none (node .none .none)) := by cbv
  have given : PathArgument.coerce (.text "leaf") = .ok ("leaf", (toLeaf 0).map .segment) := by cbv
  have resolved : (withLinked.resolve 64 linked (.text "leaf")).outcome = .ok linkedLeaf := by cbv
  have onLink {u : Schema} (h : withLinked.StepsThrough 64 linked (toLeaf 0) u) : OnLink u :=
    OnLink.stepsThrough (.inl rfl) h
  obtain ⟨responsible, result, compiled, valid, inPlace⟩ :=
    resolve_accepts_part linked_compiles accepted given resolved
      (fun _ h => ⟨(onLink h).kind.1, (onLink h).kind.2.1⟩) (toLeaf_located 0)
      (partAt?_chained 0 .none spoiltNode) (.inr linked_settles)
  exact ⟨responsible, result, compiled, valid, inPlace fun _ h => (onLink h).kind.2.2⟩

/-! ## Near the limit -/

/-- A node before an accepted one opens one more reference. -/
theorem check_linked_next {definitions : List (Nat × Plan)} {body : Plan} {depth : Nat}
    {v r : Value} {st : Standing} (found : definitions.lookup 0 = some body) (hv : v ≠ .none)
    (h : body.check definitions depth (completedBefore 0 definitions) [0] v .initial
      = .accepted r st) (known : List (Nat × Plan)) (entered : List Nat) :
    linkedPlan.check definitions (depth + 1) known entered (node v .none) .initial
      = .accepted (node r .none) (st.addFields 2) := by
  have next : Check.nullable ((Plan.reference 0).check definitions (depth + 1) known) [] v .initial
      = .accepted r st := by
    rw [Check.nullable_eq hv, Plan.check]
    simp only [found]
    exact h
  have hnext : entry? "next" [(.str "next", v), (.str "leaf", .none)] = some v := by cbv
  have hleaf : entry? "leaf" [(.str "next", v), (.str "leaf", .none)] = some .none := by cbv
  rw [linkedPlan, linkedLeafPlan, Plan.check, Plan.fieldChecks, Plan.fieldChecks, Plan.fieldChecks,
    Plan.check, Plan.check]
  generalize Check.nullable ((Plan.reference 0).check definitions (depth + 1) known) = first at next
  simp only [node, Check.object, Check.fields, Check.FieldCheck.run, hnext, hleaf, next,
    Check.nullable]
  rfl

/-- What is accepted is accepted behind `n` nodes, while `n` references more may be open. -/
theorem check_chained {depth : Nat} {v r : Value} (hv : v ≠ .none)
    (h : ∀ known entered, ∃ st,
      linkedPlan.check [(0, linkedPlan)] depth known entered v .initial = .accepted r st)
    (n : Nat) (known : List (Nat × Plan)) (entered : List Nat) :
    ∃ st, linkedPlan.check [(0, linkedPlan)] (depth + n) known entered (chained n v) .initial
      = .accepted (chained n r) st := by
  induction n generalizing known entered with
  | zero => exact h known entered
  | succ n ih =>
    have hchained : chained n v ≠ .none := by
      cases n with
      | zero => exact hv
      | succ => exact Value.noConfusion
    obtain ⟨st, accepted⟩ := ih (completedBefore 0 [(0, linkedPlan)]) [0]
    exact ⟨_, check_linked_next rfl hchained accepted known entered⟩

theorem write_toLeaf (n : Nat) (first : Bool) :
    ∃ text, Piece.writeFrom first ((toLeaf n).map .segment) = .ok text := by
  induction n generalizing first with
  | zero => cases first <;> exact ⟨_, rfl⟩
  | succ n ih =>
    obtain ⟨text, written⟩ := ih false
    cases first <;> exact ⟨_, by rw [toLeaf, List.map_cons, Piece.writeFrom, written]; rfl⟩

theorem resolve_toLeaf (n : Nat) : ∃ text,
    PathArgument.coerce (.list ((toLeaf n).map .segment))
        = .ok (text, (toLeaf n).map .segment) ∧
      (withLinked.resolve 64 linked (.list ((toLeaf n).map .segment))).outcome
        = .ok linkedLeaf := by
  obtain ⟨text, written⟩ := write_toLeaf n true
  have coerced : PathArgument.coerce (.list ((toLeaf n).map .segment))
      = .ok (text, (toLeaf n).map .segment) := by
    rw [PathArgument.coerce, Piece.write, written]
    rfl
  refine ⟨text, coerced, ?_⟩
  rw [resolve_of_coerce coerced]
  exact (travels_toLeaf .zero (by decide) n).outcome_walk_self text

theorem chained_inj {n : Nat} {v w : Value} (h : chained n v = chained n w) : v = w := by
  induction n with
  | zero => exact h
  | succ n ih =>
    simp only [chained, node, Value.dict.injEq, List.cons.injEq, Prod.mk.injEq] at h
    exact ih h.1.2

/-- Deep in a chain of nodes there are not enough references left to read a chain of ten nodes as
nodes, so it is left as it is. Read by itself, its end loses the entry that does not belong there.
-/
theorem deep_part_read_otherwise :
    let part := chained 10 spoiltNode
    let deep := chained 250 (node .none part)
    let path : PathArgument := .list ((toLeaf 250).map .segment)
    ∃ validator responsible text,
      (withLinked.compile 64 linked).outcome = .ok validator ∧ validator.validate deep = .ok deep ∧
      path.coerce = .ok (text, (toLeaf 250).map .segment) ∧
      (withLinked.resolve 64 linked path).outcome = .ok linkedLeaf ∧
      (∀ u, withLinked.StepsThrough 64 linked (toLeaf 250) u →
        u.kind ≠ .union ∧ u.kind ≠ .pipe ∧ u.kind ≠ .record) ∧
      List.Forall₂ Segment.Locates (toLeaf 250) (atLeaf 250) ∧
      deep.partAt? (atLeaf 250) = some part ∧
      (withLinked.compile 64 linkedLeaf).outcome = .ok responsible ∧
      responsible.validate part = .ok (chained 10 (node .none .none)) ∧
      deep.partAt? (atLeaf 250) ≠ some (chained 10 (node .none .none)) := by
  intro part deep path
  obtain ⟨text, coerced, resolved⟩ := resolve_toLeaf 250
  have bottom (known : List (Nat × Plan)) (entered : List Nat) : ∃ st,
      linkedPlan.check [(0, linkedPlan)] 4 known entered (node .none part) .initial
        = .accepted (node .none part) st := by
    refine Verdict.toExcept_eq_ok_iff.mp ?_
    cbv
  have accepted : ({ root := linkedPlan, definitions := [(0, linkedPlan)] } : Validator).validate
      deep = .ok deep := by
    obtain ⟨st, run⟩ := check_chained Value.noConfusion bottom 250 [(0, linkedPlan)] []
    exact congrArg Verdict.toExcept run
  have stands : deep.partAt? (atLeaf 250) = some part := partAt?_chained 250 .none part
  have valid : ({ root := linkedLeafPlan, definitions := [(0, linkedPlan)] } : Validator).validate
      part = .ok (chained 10 (node .none .none)) := by cbv
  have differs : part ≠ chained 10 (node .none .none) := by
    intro same
    cases chained_inj same
  refine ⟨_, _, text, linked_compiles, accepted, coerced, resolved, fun u through => ?_,
    toLeaf_located 250, stands, linkedLeaf_compiles, valid, ?_⟩
  · exact (OnLink.stepsThrough (.inl rfl) through).kind
  · rw [stands]
    exact fun same => differs (Option.some.inj same)

end Scope

end Schemata
