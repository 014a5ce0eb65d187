import Schemata.Proofs.Compilation.Run
import Schemata.Proofs.Traversal.Entered
import Schemata.Proofs.Validation.Parts
import Schemata.Proofs.Validation.Renumbering

/-!
# Parts along a path

What a path stands for in values, and how a check comes to it: through the wrappers before a move
with the value as it is, opening a reference for every lazy schema that is forced, and through a
move with the part as a value of its own. So the check at the end of the path takes the part, while
fewer references may be open.
-/

namespace Schemata

/-- The places that a segment stands for. -/
inductive Segment.Locates : Segment → Spot → Prop
  | property {name : String} : Locates (.property name) (.key name)
  | index {n : Nat} : Locates (.index n) (.position n)
  | element {n : Nat} : Locates .element (.position n)
  | value {n : Nat} : Locates .element (.entry n)

namespace Scope

variable {scope : Scope} {limit n : Nat} {s t u : Schema}

theorem behind_of_force {budget : Nat} (h : (scope.force limit budget s).outcome = .ok t) :
    ∃ c, scope.Behind c s t := by
  induction budget generalizing s with
  | zero => cases h
  | succ budget ih =>
    cases s with
    | lazy id =>
      obtain ⟨u, hu, h⟩ := exists_of_ask h
      obtain ⟨c, behind⟩ := ih h
      exact ⟨c + 1, .succ (.target hu) behind⟩
    | _ =>
      cases h
      exact ⟨0, .zero⟩

/-- What a lazy schema is forced to stands behind it. -/
theorem behind_of_force_lazy {budget : Nat} {id : NodeId}
    (h : (scope.force limit budget (.lazy id)).outcome = .ok t) :
    ∃ c, scope.Behind (c + 1) (.lazy id) t := by
  cases budget with
  | zero => cases h
  | succ budget =>
    obtain ⟨u, hu, h⟩ := exists_of_ask h
    obtain ⟨c, behind⟩ := behind_of_force h
    exact ⟨c, .succ (.target hu) behind⟩

/-! ## Checks on the way -/

variable {number : NodeId → Nat → Prop} {definitions known : List (Nat × Plan)} {depth : Nat}
  {p : Plan} {v r : Value} {st st' : Standing}

/-- Behind a wrapper, what is no absence is checked alike. -/
theorem accepted_of_planOfWrapper {w : Wrapper} {entered : List Nat} (hnone : v ≠ .none)
    (hmissing : v.isMissing = false)
    (accepted : (planOfWrapper w p).check definitions depth known entered v st = .accepted r st') :
    p.check definitions depth known entered v st = .accepted r st' := by
  cases w with
  | optional =>
    rw [planOfWrapper, Plan.check, Check.ifMissing_eq hmissing] at accepted
    exact accepted
  | nullable =>
    rw [planOfWrapper, Plan.check, Check.nullable_eq hnone] at accepted
    exact accepted
  | readonly => exact accepted
  | default value =>
    rw [planOfWrapper, Plan.check, Plan.check, Check.ifMissing_eq hmissing] at accepted
    exact accepted

/-- What `p` accepts, `q` accepts while `k` references fewer may be open. -/
def LeadsOn (definitions : List (Nat × Plan)) (p : Plan) (k : Nat) (q : Plan) : Prop :=
  ∀ ⦃depth : Nat⦄ ⦃known : List (Nat × Plan)⦄ ⦃entered : List Nat⦄ ⦃v r : Value⦄
    ⦃st st' : Standing⦄,
    Completed definitions known → v ≠ .none → v.isMissing = false →
    p.check definitions depth known entered v st = .accepted r st' →
    ∃ rest known' entered', depth = rest + k ∧ Completed definitions known' ∧
      q.check definitions rest known' entered' v st = .accepted r st'

/-- A value that is accepted is also accepted behind the wrappers, each reference on the way being
opened. -/
theorem Finished.leadsOn {root : Schema} {d : Draft} {plan : Plan}
    (h : scope.Finished limit root d plan) (behind : scope.Behind n s u)
    (solid : u.isWrapper = false) (plain : ∀ m w, scope.Behind m s w → w.kind ≠ .pipe)
    (hp : scope.Plans limit d.Numbers s p) :
    ∃ k q, scope.Plans limit d.Numbers u q ∧ LeadsOn d.definitions p k q := by
  induction n using Nat.strongRecOn generalizing s p with
  | ind n ih =>
    -- A wrapper opens no reference, a lazy schema opens one and goes on in its definition, and others
    -- have nothing behind them. There is no pipe, which would hand on another value.
    cases s with
    | wrapper id w inner =>
      cases behind with
      | zero => cases solid
      | succ opens behind =>
        cases opens
        cases hp with
        | wrapper hp =>
          obtain ⟨k, q, hq, leadsOn⟩ := ih _ (Nat.lt_succ_self _) behind
            (fun m w hw => plain (m + 1) w (.succ .inner hw)) hp
          exact ⟨k, q, hq, fun _ _ _ _ _ _ _ complete hnone hmissing accepted =>
            leadsOn complete hnone hmissing (accepted_of_planOfWrapper hnone hmissing accepted)⟩
    | lazy id =>
      cases hp with
      | @lazy _ number hn =>
        obtain ⟨t, body, ht, found, hbody⟩ := h.definition hn
        -- The definition belongs to the schema behind all lazy schemas in a row, so the row is passed
        -- at once.
        obtain ⟨c, hc⟩ := behind_of_force_lazy ht
        obtain ⟨m, rfl, rest⟩ := behind.rest solid hc
        obtain ⟨k, q, hq, leadsOn⟩ := ih m (by omega) rest
          (fun j w hw => plain (c + 1 + j) w (hc.trans hw)) hbody
        refine ⟨k + 1, q, hq, fun depth known entered v r st st' _ hnone hmissing accepted => ?_⟩
        rw [Plan.check] at accepted
        cases depth with
        | zero => cases accepted
        | succ depth =>
          simp only [found] at accepted
          split at accepted
          · cases accepted
          · obtain ⟨rest, known', entered', rfl, complete, hq⟩ :=
              leadsOn (.body found) hnone hmissing accepted
            exact ⟨rest, known', entered', rfl, complete, hq⟩
    | pipe id input output => exact absurd rfl (plain 0 _ .zero)
    | _ =>
      cases behind with
      | zero => exact ⟨0, p, hp, fun _ _ _ _ _ _ _ complete _ _ accepted => ⟨_, _, _, rfl, complete, accepted⟩⟩
      | succ opens _ => cases opens

theorem PlansShape.exists_check {shape : List (String × Schema)} {fields : List (Field Plan)}
    (h : scope.PlansShape limit number shape fields) {name : String}
    (hs : shape.lookup name = some t) :
    ∃ q, scope.Plans limit number t q ∧ ∀ definitions depth known, ∃ field,
      (Plan.fieldChecks definitions depth known fields).find? (·.name == name) = some field ∧
        field.check = q.check definitions depth known := by
  induction shape generalizing fields with
  | nil => cases hs
  | cons property rest ih =>
    obtain ⟨key, s⟩ := property
    obtain _ | ⟨hp, _, hfields⟩ := h
    by_cases same : key = name
    · subst same
      rw [List.lookup_cons_self] at hs
      cases hs
      refine ⟨_, hp, fun definitions depth known => ?_⟩
      simp
    · have other : (name == key) = false := beq_false_of_ne fun h => same h.symm
      rw [List.lookup_cons, other] at hs
      obtain ⟨q, hq, checks⟩ := ih hfields hs
      refine ⟨q, hq, fun definitions depth known => ?_⟩
      simpa [same] using checks definitions depth known

theorem PlansAll.exists_check {ss : List Schema} {ps : List Plan}
    (h : scope.PlansAll limit number ss ps) (hs : ss[n]? = some t) :
    ∃ q, scope.Plans limit number t q ∧ ∀ definitions depth known, ∃ item,
      (Plan.itemChecks definitions depth known ps)[n]? = some item ∧
        item.check = q.check definitions depth known := by
  induction n generalizing ss ps with
  | zero =>
    obtain _ | ⟨hp, _⟩ := h
    · cases hs
    cases hs
    refine ⟨_, hp, fun definitions depth known => ?_⟩
    rw [Plan.itemChecks]
    exact ⟨_, rfl, rfl⟩
  | succ n ih =>
    obtain _ | ⟨_, hps⟩ := h
    · cases hs
    obtain ⟨q, hq, checks⟩ := ih hps hs
    refine ⟨q, hq, fun definitions depth known => ?_⟩
    rw [Plan.itemChecks]
    exact checks definitions depth known

/-- What `p` accepts has parts that `q` takes. The results stand where the parts stood, if
`inPlace`. -/
def PartsTaken (definitions : List (Nat × Plan)) (segment : Segment) (inPlace : Prop)
    (p q : Plan) : Prop :=
  ∀ ⦃depth : Nat⦄ ⦃known : List (Nat × Plan)⦄ ⦃entered : List Nat⦄ ⦃v r : Value⦄
    ⦃st st' : Standing⦄,
    p.check definitions depth known entered v st = .accepted r st' →
    ∀ ⦃spot : Spot⦄ ⦃x : Value⦄, segment.Locates spot → v.part? spot = some x →
      ∃ result, (q.check definitions depth known).Takes x result ∧
        (inPlace → r.part? spot = some result)

/-- The child that a segment names takes the parts that the segment stands for. -/
theorem Plans.partsTaken {segment : Segment} (hp : scope.Plans limit number u p)
    (child : u.HasChild segment t) (plain : u.kind ≠ .union) (definitions : List (Nat × Plan)) :
    ∃ q, scope.Plans limit number t q ∧
      PartsTaken definitions segment (u.kind ≠ .record) p q := by
  -- The segment and the plan of the child go together. Only the entries of a record may move, because
  -- equal keys are merged.
  cases child with
  | property hs =>
    cases hp with
    | object hfields =>
      obtain ⟨q, hq, checks⟩ := hfields.exists_check hs
      refine ⟨q, hq, fun depth known entered v r st st' accepted spot x located part => ?_⟩
      rw [Plan.check] at accepted
      obtain ⟨given, made, rfl, rfl, taken⟩ := Check.object_takes accepted
      obtain ⟨field, hfield, hcheck⟩ := checks definitions depth known
      cases located
      obtain ⟨result, hresult, made⟩ := taken hfield part
      exact ⟨result, hcheck ▸ hresult, fun _ => made⟩
  | element =>
    cases hp with
    | @array _ _ q hq =>
      refine ⟨q, hq, fun depth known entered v r st st' accepted spot x located part => ?_⟩
      rw [Plan.check] at accepted
      obtain ⟨items, results, sequence, rfl, taken⟩ := Check.list_takes accepted
      cases located with
      | @element n =>
        have hx : items[n]? = some x := by rcases sequence with rfl | rfl <;> exact part
        obtain ⟨hlt, rfl⟩ := List.getElem?_eq_some_iff.mp hx
        have hlt' : n < results.length := taken.length_eq ▸ hlt
        exact ⟨results[n], taken.get hlt hlt', fun _ => List.getElem?_eq_getElem hlt'⟩
      | value => rcases sequence with rfl | rfl <;> cases part
  | value =>
    cases hp with
    | @record _ _ _ _ q _ hq =>
      refine ⟨q, hq, fun depth known entered v r st st' accepted spot x located part => ?_⟩
      rw [Plan.check] at accepted
      obtain ⟨given, rfl, taken⟩ := Check.dict_takes accepted
      cases located with
      | element => cases part
      | @value n =>
        obtain ⟨entry, hentry, rfl⟩ := Option.map_eq_some_iff.mp part
        obtain ⟨result, hresult⟩ := taken entry (List.mem_of_getElem? hentry)
        exact ⟨result, hresult, fun other => absurd rfl other⟩
  | @item _ _ n _ hs =>
    cases hp with
    | tuple hps =>
      obtain ⟨q, hq, checks⟩ := hps.exists_check hs
      refine ⟨q, hq, fun depth known entered v r st st' accepted spot x located part => ?_⟩
      rw [Plan.check] at accepted
      obtain ⟨given, results, sequence, rfl, taken⟩ := Check.tuple_takes accepted
      obtain ⟨item, hitem, hcheck⟩ := checks definitions depth known
      cases located with
      | index =>
        have hx : given[n]? = some x := by rcases sequence with rfl | rfl <;> exact part
        obtain ⟨result, hresult, stands⟩ := taken hitem hx
        exact ⟨result, hcheck ▸ hresult, fun _ => stands⟩
  | option => exact absurd rfl plain

/-- Along a path, the parts of what is accepted are taken, while some references fewer may be open.
-/
theorem Finished.parts_taken {root m : Schema} {d : Draft} {plan : Plan} {segments : List Segment}
    (h : scope.Finished limit root d plan) (travels : scope.Travels limit s segments m)
    (plain : ∀ u, scope.StepsThrough limit s segments u → u.kind ≠ .union ∧ u.kind ≠ .pipe)
    (hp : scope.Plans limit d.Numbers s p) :
    ∃ k q, scope.Plans limit d.Numbers m q ∧ ∀ ⦃depth known v r spots x⦄,
      Completed d.definitions known → (p.check d.definitions depth known).Takes v r →
      List.Forall₂ Segment.Locates segments spots → v.partAt? spots = some x →
      ∃ rest known' result, depth = rest + k ∧ Completed d.definitions known' ∧
        (q.check d.definitions rest known').Takes x result ∧
        ((∀ u, scope.StepsThrough limit s segments u → u.kind ≠ .record) →
          r.partAt? spots = some result) := by
  induction travels generalizing p with
  | nil =>
    refine ⟨0, p, hp, fun depth known v r spots x complete taken located part => ?_⟩
    cases located
    cases part
    exact ⟨depth, known, r, rfl, complete, taken, fun _ => rfl⟩
  | @cons s t m segment segments moves _ ih =>
    obtain ⟨n, u, _, behind, solid, child⟩ := id moves
    have passed {w : Schema} {n : Nat} (hw : scope.Behind n s w) :
        scope.StepsThrough limit s (segment :: segments) w :=
      stepsThrough_cons_iff.mpr (.inl ⟨n, hw⟩)
    have later {w : Schema} (hw : scope.StepsThrough limit t segments w) :
        scope.StepsThrough limit s (segment :: segments) w :=
      stepsThrough_cons_iff.mpr (.inr ⟨t, moves, hw⟩)
    -- One step is made of two: behind the wrappers, where references are opened, and into the child,
    -- where a part is taken. The depths that the steps use add up.
    obtain ⟨j, o, ho, leadsOn⟩ := h.leadsOn behind solid (fun _ _ hw => (plain _ (passed hw)).2) hp
    obtain ⟨c, hc, partsTaken⟩ := ho.partsTaken child (plain u (passed behind)).1 d.definitions
    obtain ⟨k, q, hq, below⟩ := ih (fun u hu => plain u (later hu)) hc
    refine ⟨k + j, q, hq, fun depth known v r spots x complete taken located part => ?_⟩
    cases located with
    | @cons _ spot _ spots first others =>
      obtain ⟨y, hy, part⟩ := Option.bind_eq_some_iff.mp part
      obtain ⟨hnone, hmissing⟩ := Value.solid_of_part hy
      obtain ⟨st, st', accepted⟩ := taken
      obtain ⟨rest, known', _, rfl, complete', inside⟩ := leadsOn complete hnone hmissing accepted
      obtain ⟨made, hmade, stands⟩ := partsTaken inside first hy
      obtain ⟨rest, known', result, rfl, complete, hresult, inPlace⟩ :=
        below complete' hmade others part
      refine ⟨rest, known', result, Nat.add_assoc .., complete, hresult, fun recordless => ?_⟩
      rw [Value.partAt?, stands (recordless u (passed behind))]
      exact inPlace fun u hu => recordless u (later hu)

end Scope

end Schemata
