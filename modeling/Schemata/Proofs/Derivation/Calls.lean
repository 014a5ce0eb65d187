import Schemata.Proofs.Derivation.Success
import Schemata.Proofs.Schema.Ends

/-!
# The calls of a derivation

Deriving a type calls itself for the children and, for a lazy schema without a name, for its target.
A lazy schema has its name before its target is asked for, so no target is asked for twice. It ends
whatever was derived before: it fails only for want of a target.
-/

namespace Schemata

namespace Scope

variable {scope : Scope} {α β : Type} {r r' : Registry} {o : Owners}

/-- A derivation asks lazy schemas for their targets, each of them once. They had no names before, and
they have names once it has succeeded. -/
structure AsksOnce (r : Registry) (x : Except Failure α × Registry) : Prop where
  le : r.Le x.2
  asked : ∃ asked : List NodeId, x.2.asked = asked ++ r.asked ∧ asked.Nodup ∧
    (∀ id ∈ asked, ¬ r.IsNamed id) ∧ ∀ a, x.1 = .ok a → ∀ id ∈ asked, x.2.IsNamed id

namespace AsksOnce

theorem pure (a : α) : AsksOnce r (.ok a, r) where
  le := .refl r
  asked := ⟨[], rfl, .nil, by simp, by simp⟩

/-- One derivation after another. What the first one has asked has a name when the second one
starts. -/
theorem bind {m : Deriving α} {f : α → Deriving β} (h : AsksOnce r (m.exec r))
    (next : ∀ a r', m.exec r = (.ok a, r') → AsksOnce r' ((f a).exec r')) :
    AsksOnce r ((m >>= f).exec r) := by
  obtain ⟨le, asked, hasked, nodup, new, named⟩ := h
  rcases hm : m.exec r with ⟨failure | a, r'⟩
  · rw [hm] at le hasked
    rw [Stateful.exec_bind_error hm]
    exact ⟨le, asked, hasked, nodup, new, by rintro _ ⟨⟩⟩
  · obtain ⟨le', asked', hasked', nodup', new', named'⟩ := next a r' hm
    rw [hm] at le hasked named
    rw [Stateful.exec_bind_ok hm]
    refine ⟨le.trans le', asked' ++ asked, ?_, ?_, ?_, ?_⟩
    · rw [hasked', hasked, List.append_assoc]
    · refine List.nodup_append.mpr ⟨nodup', nodup, ?_⟩
      -- What was asked first is named when the second starts, and only the nameless are asked.
      rintro id hid' _ hid rfl
      exact new' id hid' (named a rfl id hid)
    · intro id hid
      rcases List.mem_append.mp hid with hid | hid
      · exact fun isNamed => new' id hid (le.isNamed isNamed)
      · exact new id hid
    · intro b hb id hid
      rcases List.mem_append.mp hid with hid | hid
      · exact named' b hb id hid
      · exact le'.isNamed (named a rfl id hid)

/-- A lazy schema without a name is asked before everything else that deriving its target asks. -/
theorem closeLazy {id : NodeId} {x : Except Failure StaticType × Registry} (start : Ready r o)
    (new : ¬ r.IsNamed id) (h : AsksOnce (r.opening id) x) :
    AsksOnce r (closeLazy id (Registry.lazyName r.lazyCount) x) := by
  obtain ⟨le, asked, hasked, nodup, others, named⟩ := h
  have grown : asked ++ (r.opening id).asked = (asked ++ [id]) ++ r.asked := by
    rw [List.append_assoc]
    rfl
  have once : (asked ++ [id]).Nodup := by
    refine List.nodup_append.mpr ⟨nodup, by simp, ?_⟩
    rintro j hj _ heq rfl
    exact others j hj (Registry.opening_isNamed_iff.mpr (.inl (List.mem_singleton.mp heq)))
  have unnamed : ∀ j ∈ asked ++ [id], ¬ r.IsNamed j := by
    intro j hj
    rcases List.mem_append.mp hj with hj | hj
    · exact fun isNamed => others j hj (Registry.opening_isNamed_iff.mpr (.inr isNamed))
    · exact List.mem_singleton.mp hj ▸ new
  rcases x with ⟨failure | t, r'⟩
  · exact ⟨le.closeError new, asked ++ [id], hasked.trans grown, once, unnamed,
      by rintro _ ⟨⟩⟩
  · refine ⟨le.closeOk start.tidy new t, asked ++ [id], hasked.trans grown, once, unnamed, ?_⟩
    rintro _ _ j hj
    rcases List.mem_append.mp hj with hj | hj
    · exact named t rfl j hj
    · obtain rfl := List.mem_singleton.mp hj
      exact ⟨_, le.named Registry.opening_named⟩

end AsksOnce

variable (scope)

theorem typesOf_asksOnce {depth : Nat} {ss : List Schema}
    (each : ∀ s ∈ ss, ∀ r o, Ready r o → scope.pending r < depth →
      AsksOnce r ((scope.typeOf depth s).exec r))
    (start : Ready r o) (enough : scope.pending r < depth) :
    AsksOnce r ((scope.typesOf depth ss).exec r) := by
  induction ss generalizing r o with
  | nil =>
    rw [typesOf]
    exact .pure _
  | cons s ss ih =>
    rw [typesOf]
    refine (each s List.mem_cons_self r o start enough).bind fun t r' ht => ?_
    have run := scope.typeOf_run depth s r o start enough
    rw [ht] at run
    cases run with
    | ok grows =>
      have enough' := Nat.lt_of_le_of_lt (scope.pending_le grows.le) enough
      refine AsksOnce.bind ?_ fun ts _ _ => .pure _
      exact ih (fun s hs => each s (List.mem_cons_of_mem _ hs)) grows.ready enough'

/-- No derivation asks a lazy schema twice. -/
theorem typeOf_asksOnce (depth : Nat) (s : Schema) (r : Registry) (o : Owners) (start : Ready r o)
    (enough : scope.pending r < depth) : AsksOnce r ((scope.typeOf depth s).exec r) := by
  have children (c : Schema) (hc : c ∈ s.children) (r : Registry) (o : Owners) (start : Ready r o)
      (enough : scope.pending r < depth) : AsksOnce r ((scope.typeOf depth c).exec r) :=
    typeOf_asksOnce depth c r o start enough
  cases composite : s.isComposite with
  | true =>
    rw [scope.typeOf_composite composite]
    exact (scope.typesOf_asksOnce children start enough).bind fun ts _ _ => .pure _
  | false =>
    cases s with
    | array | record | tuple | union | wrapper | pipe => cases composite
    | leaf id l =>
      rw [scope.typeOf_leaf]
      exact .pure _
    | object id shape =>
      rw [scope.typeOf_object]
      have numbered : AsksOnce r (Registry.takeShape.exec r) := by
        rw [Registry.exec_takeShape]
        exact ⟨.withShape r, [], rfl, .nil, by simp, by simp⟩
      refine numbered.bind fun n r' hn => ?_
      have run := scope.takeShape_run shape (fun _ => True) start
      rw [hn] at run
      cases run with
      | ok grows =>
        have enough' := Nat.lt_of_le_of_lt (scope.pending_le grows.le) enough
        refine (scope.typesOf_asksOnce children grows.ready enough').bind fun ts _ _ => .pure _
    | lazy id =>
      by_cases named : r.IsNamed id
      · obtain ⟨n, hn⟩ := named
        rw [scope.exec_typeOf_named hn]
        exact .pure _
      · -- A lazy schema that is about to be named leaves fewer to be named behind it.
        obtain ⟨depth, rfl⟩ := Nat.exists_eq_succ_of_ne_zero (Nat.ne_zero_of_lt enough)
        rw [scope.exec_typeOf_unnamed named]
        refine AsksOnce.closeLazy start named ?_
        cases htarget : scope.target id with
        | error failure => exact ⟨.refl _, [], rfl, .nil, by simp, by rintro _ ⟨⟩⟩
        | ok s =>
          have fewer := scope.pending_lt (Registry.Le.opening named) named
            ⟨_, Registry.opening_named⟩ htarget
          exact typeOf_asksOnce depth s (r.opening id) o (start.opening named) (by omega)
termination_by (depth, sizeOf s)
decreasing_by
  · exact .right _ (Schema.sizeOf_lt_of_mem_children hc)
  · exact .left _ _ (by omega)

/-- Deriving the type of a schema ends, with the targets of lazy schemas asked for once each. -/
theorem staticType_ends (start : Ready r o) (s : Schema) :
    Ends ((scope.staticType s).exec r).1 ∧ AsksOnce r ((scope.staticType s).exec r) := by
  constructor
  · have run := scope.staticType_run start s
    generalize (scope.staticType s).exec r = x at run
    cases run with
    | ok => exact .ok _
    | error _ _ _ hfails => exact (hfails ▸ scope.target_ends _).of_error
  · exact scope.typeOf_asksOnce _ s r o start (Nat.lt_succ_of_le List.countP_le_length)

end Scope

end Schemata
