import Mathlib
import Schemata.Proofs.Derivation.SideBySide
import Schemata.Proofs.Derivation.Turns

/-!
# Derivations that fail

A derivation that fails leaves behind what it had registered before it failed. Later derivations
answer as if it had not been made just when every lazy schema that it left with a name can be derived
without it; otherwise a type stays registered that refers to a name taken back. Such a type is left
when a lazy schema inside another one is complete before the outer one fails.
-/

namespace Schemata

/-! ## What failed derivations leave -/

namespace Registry

/-- A name that was given out, to a lazy schema that still has it or to one that has lost it. -/
def Given (r : Registry) (id : NodeId) (n : String) : Prop :=
  r.Named id n ∨ r.Dead n

theorem Le.given {r r' : Registry} (h : r.Le r') {id : NodeId} {n : String} (hn : r.Given id n) :
    r'.Given id n :=
  hn.imp h.named h.dead

theorem Given.paired {r r' : Registry} (le : r.Le r') {id : NodeId} {n : String}
    (h : r.Given id n) : Paired r' r n n := by
  rcases h with hn | hn
  · exact .inl ⟨id, le.named hn, hn⟩
  · exact .inr ⟨le.dead hn, hn⟩

/-- Every name that a registered type refers to has a registered type. -/
def Closed (r : Registry) : Prop :=
  ∀ n t, r.names.derived.lookup n = some t →
    ∀ m ∈ t.references, ∃ u, r.names.derived.lookup m = some u

end Registry

namespace Scope

open Registry

variable {scope : Scope} {r r' : Registry} {o o' : Owners}

/-- Every lazy schema with a name has its type registered, and the type describes its target, though
names in it may be dead. -/
structure Kept (scope : Scope) (r : Registry) (o : Owners) : Prop where
  ready : Ready r o
  entries {id : NodeId} {n : String} : r.Named id n →
    ∃ s t, scope.target id = .ok s ∧ r.names.derived.lookup n = some t
      ∧ DescribesDerived o r.Given s t

theorem kept_iff : scope.Kept r o ↔ scope.Registered Registry.Given r o :=
  ⟨fun h => ⟨h.ready, h.entries⟩, fun h => ⟨h.ready, h.entries⟩⟩

theorem steady_given : scope.Steady Registry.Given where
  named := .inl
  later le h := le.given h
  left h := h.imp_right And.left

theorem Fresh.kept (h : Fresh r) : scope.Kept r fun _ => none :=
  kept_iff.mpr h.registered

theorem Kept.grows {refers : NodeId → String → Prop} (h : scope.Kept r o)
    (grows : scope.Grows r r' o o' refers) (given : ∀ id n, refers id n → r'.Given id n) :
    scope.Kept r' o' :=
  kept_iff.mpr ((kept_iff.mp h).grows grows (fun _ _ => grows.le.given) given)

theorem Kept.inTurn (h : scope.Kept r o) (ss : List Schema) :
    ∃ o', r.Le (scope.inTurn ss r).2 ∧ scope.Kept (scope.inTurn ss r).2 o' ∧
      (∀ k shape, o k = some shape → o' k = some shape) ∧
      ∀ t, .ok t ∈ (scope.inTurn ss r).1 →
        ∃ s, DescribesDerived o' (scope.inTurn ss r).2.Given s t := by
  obtain ⟨o', le, after, owners, described⟩ := (kept_iff.mp h).inTurn steady_given ss
  exact ⟨o', le, kept_iff.mpr after, owners, described⟩

/-! ## Derivations side by side -/

theorem inTurn_lockstep {b₁ b₂ r₁ r₂ : Registry} (ahead : scope.Ahead b₁ b₂)
    (h : Twins b₁ b₂ r₁ r₂) (ss : List Schema) :
    let x := scope.inTurn ss r₁
    let y := scope.inTurn ss r₂
    Twins b₁ b₂ x.2 y.2 ∧ r₁.Le x.2 ∧ r₂.Le y.2 ∧
      List.Forall₂ (Related (Alike (Paired x.2 y.2))) x.1 y.1 := by
  induction ss generalizing r₁ r₂ with
  | nil => exact ⟨h, .refl r₁, .refl r₂, .nil⟩
  | cons s ss ih =>
    have first := typeOf_lockstep ahead (scope.getters.length + 1) s r₁ r₂ h
      (Nat.lt_succ_of_le List.countP_le_length) (Nat.lt_succ_of_le List.countP_le_length)
    unfold inTurn staticType
    generalize (scope.typeOf (scope.getters.length + 1) s).exec r₁ = x at first ⊢
    generalize (scope.typeOf (scope.getters.length + 1) s).exec r₂ = y at first ⊢
    cases first with
    | ok twins le₁ le₂ htu =>
      obtain ⟨twins', le₁', le₂', answers⟩ := ih twins
      refine ⟨twins', le₁.trans le₁', le₂.trans le₂', .cons (.ok ?_) answers⟩
      exact htu.mono fun _ _ => Paired.mono le₁' le₂'
    | error twins le₁ le₂ =>
      obtain ⟨twins', le₁', le₂', answers⟩ := ih twins
      exact ⟨twins', le₁.trans le₁', le₂.trans le₂', .cons (.error _) answers⟩

/-! ## A derivation that fails -/

/-- What is left of a failed derivation is complete, if it can be derived without it. -/
theorem Grows.ahead (grows : scope.Grows r r' o o' (scope.LeftBehind r r'))
    (harmless : ∀ id, r'.IsNamed id → ¬ r.IsNamed id → scope.Grounded r.IsNamed (.lazy id)) :
    scope.Ahead r' r where
  tidy := grows.tidy
  grounded := harmless _
  entries {id n} hn new := by
    obtain ⟨s, t, htarget, hlookup, ht⟩ := grows.entries hn new
    have ground := harmless id ⟨n, hn⟩ new
    refine ⟨o', s, t, htarget, hlookup, ?_⟩
    refine ht.restrict scope r.IsNamed (fun _ _ h => h) ?_
    rintro k m _ hreach (hm | ⟨_, stuck⟩)
    · exact hm
    · exact absurd (ground.of_reaches (.head (.target new htarget) hreach)) stuck

/-- Before anything else is derived, the registries with and without a failed derivation stand side
by side. -/
theorem Kept.twins (kept : scope.Kept r o) (le : r.Le r') (tidy : r'.Tidy) : Twins r' r r' r where
  le₁ := .refl r'
  le₂ := .refl r
  tidy₁ := tidy
  tidy₂ := kept.ready.tidy
  named := le.isNamed
  extra h _ := h
  entries {id n m} hn hm := by
    obtain rfl := (le.named hm).det hn
    obtain ⟨s, t, _, hlookup, ht⟩ := kept.entries hm
    rw [le.derived hm, hlookup]
    have same (k : NodeId) (a : String) (ha : r.Given k a) : Paired r' r a a := ha.paired le
    exact .some (ht.alike_self same same)

/-- The same failure, or types through which every path leads to the same class. -/
def SameAnswer (names names' : Names) :
    Except Failure StaticType → Except Failure StaticType → Prop :=
  Related fun t u => ∀ limit path, (names.typeAt limit t path).map StaticType.schemaClass?
    = (names'.typeAt limit u path).map StaticType.schemaClass?

theorem Twins.sameAnswer {b₁ b₂ r₁ r₂ : Registry} (h : Twins b₁ b₂ r₁ r₂)
    {x y : Except Failure StaticType} (hxy : Related (Alike (Paired r₁ r₂)) x y) :
    SameAnswer r₁.names r₂.names x y :=
  hxy.mono fun _ _ htu => h.corresponds.typeAt htu

/-- If a failed derivation leaves only what can be derived without it, no later answer tells that it
was made. -/
theorem Kept.unnoticed (kept : scope.Kept r o) {answers : List (Except Failure StaticType)}
    (described : ∀ t, .ok t ∈ answers → ∃ s, DescribesDerived o r.Given s t)
    (grows : scope.Grows r r' o o' (scope.LeftBehind r r'))
    (harmless : ∀ id, r'.IsNamed id → ¬ r.IsNamed id → scope.Grounded r.IsNamed (.lazy id))
    (later : List Schema) :
    List.Forall₂ (SameAnswer (scope.inTurn later r').2.names (scope.inTurn later r).2.names)
      (answers ++ (scope.inTurn later r').1) (answers ++ (scope.inTurn later r).1) := by
  obtain ⟨twins, le₁, le₂, alike⟩ :=
    inTurn_lockstep (grows.ahead harmless) (kept.twins grows.le grows.tidy) later
  refine List.rel_append ?_ (alike.imp fun _ _ => twins.sameAnswer)
  rw [List.forall₂_same]
  intro x hx
  apply twins.sameAnswer
  cases x with
  | error failure => exact .error failure
  | ok t =>
    obtain ⟨s, ht⟩ := described t hx
    have same (k : NodeId) (a : String) (ha : r.Given k a) := (ha.paired grows.le).mono le₁ le₂
    exact .ok (ht.alike_self same same)

/-- What is closed after a failed derivation can be derived without it. -/
theorem Grows.grounded_of_closed (grows : scope.Grows r r' o o' (scope.LeftBehind r r'))
    (closed : r'.Closed) {id : NodeId} (hid : r'.IsNamed id) :
    scope.Grounded r.IsNamed (.lazy id) := by
  have complete : scope.Grows r r' o o' r'.Named :=
    { grows with
      entries := by
        intro id n hn new
        obtain ⟨s, t, htarget, hlookup, ht⟩ := grows.entries hn new
        refine ⟨s, t, htarget, hlookup, ?_⟩
        refine ht.restrict scope r.IsNamed (fun _ _ h => h) ?_
        rintro k m hm _ (hk | ⟨dead, _⟩)
        · exact hk
        · obtain ⟨u, hu⟩ := closed n t hlookup m hm
          rw [dead.lookup grows.tidy] at hu
          cases hu }
  exact complete.grounded (Grounded.lazy_iff.mpr fun new => absurd hid new)

/-- If what a failed derivation leaves can be derived without it, the registry stays closed. -/
theorem Kept.closed (kept : scope.Kept r o) (closed : r.Closed)
    (grows : scope.Grows r r' o o' (scope.LeftBehind r r'))
    (harmless : ∀ id, r'.IsNamed id → ¬ r.IsNamed id → scope.Grounded r.IsNamed (.lazy id)) :
    r'.Closed := by
  intro n t hn m hm
  obtain ⟨id, hid⟩ := grows.tidy.registered hn
  by_cases hold : r.IsNamed id
  · obtain ⟨n', hn'⟩ := hold
    obtain rfl := (grows.le.named hn').det hid
    rw [grows.le.derived hn'] at hn
    obtain ⟨u, hu⟩ := closed _ t hn m hm
    exact ⟨u, grows.le.lookup kept.ready.tidy hu⟩
  · obtain ⟨_, s, t', _, hlookup, ht⟩ := (grows.ahead harmless).entries hid hold
    obtain rfl := Option.some.inj (hlookup.symm.trans hn)
    obtain ⟨k, hk⟩ := ht.exists_refers (fun _ _ h => h) m hm
    obtain ⟨_, u, _, hu, _⟩ := (kept.grows grows fun _ _ h => h.imp_right And.left).entries hk
    exact ⟨u, hu⟩

/-- Derivations that come after one that has failed answer as if it had not been made, and what was
derived before goes on to behave in the same way, just when each lazy schema that it has left with a
name can be derived without it. Just then, too, no registered type refers to a name that has no
type. -/
theorem failed_derivation_unnoticed_iff {r₀ : Registry} (fresh : Fresh r₀) {earlier : List Schema}
    {s : Schema} {failure : Failure}
    (fails : (scope.staticType s).exec (scope.inTurn earlier r₀).2 = (.error failure, r')) :
    let before := scope.inTurn earlier r₀
    let harmless := ∀ id, r'.IsNamed id → ¬ before.2.IsNamed id →
      ∃ t r'', (scope.staticType (.lazy id)).exec before.2 = (.ok t, r'')
    ((∀ later,
        let left := scope.inTurn later r'
        let right := scope.inTurn later before.2
        List.Forall₂ (SameAnswer left.2.names right.2.names) (before.1 ++ left.1)
          (before.1 ++ right.1)) ↔ harmless) ∧
      (before.2.Closed → (r'.Closed ↔ harmless)) := by
  intro before harmless
  obtain ⟨o, _, kept, _, described⟩ := (fresh.kept : scope.Kept r₀ _).inTurn earlier
  have run := scope.staticType_run kept.ready s
  rw [fails] at run
  cases run with
  | @error _ _ o' _ grows =>
    have ground_iff : harmless ↔ ∀ id, r'.IsNamed id → ¬ before.2.IsNamed id →
        scope.Grounded before.2.IsNamed (.lazy id) := by
      simp only [harmless, staticType_isOk_iff kept.ready, before]
    refine ⟨⟨?_, ?_⟩, fun closed => ⟨?_, ?_⟩⟩
    · -- the lazy schema itself is what tells the difference
      intro same id hid new
      obtain ⟨n, hn⟩ := hid
      have answers := List.forall₂_drop_append _ _ _ (same [.lazy id])
      rw [List.drop_left] at answers
      simp only [inTurn] at answers
      cases answers with
      | cons answer _ =>
        have left : ((scope.staticType (.lazy id)).exec r').1
            = .ok (.schema .lazy (some [.reference n])) :=
          congrArg Prod.fst (scope.exec_typeOf_named hn)
        rw [left] at answer
        generalize (scope.staticType (.lazy id)).exec before.2 = right at answer ⊢
        obtain ⟨outcome, r''⟩ := right
        cases answer with
        | ok => exact ⟨_, r'', rfl⟩
    · intro h
      exact kept.unnoticed described grows (ground_iff.mp h)
    · intro h
      exact ground_iff.mpr fun id hid _ => grows.grounded_of_closed h hid
    · intro h
      exact kept.closed closed grows (ground_iff.mp h)

/-! ## Lazy schemas inside one another -/

/-- A tuple whose second item has no target, and an array of such tuples as its first one. -/
def tangled : Scope :=
  { defs := [("TUPLE", .schema (.tuple 3 [.lazy 1, .lazy 2])),
      ("ARRAY", .schema (.array 4 (.lazy 0))), ("LEAF", .schema (.leaf 5 .null))]
    getters := [(0, .named "TUPLE"), (1, .named "ARRAY"), (2, .fails "no target"),
      (6, .named "LEAF")] }

/-- The array is complete when the tuple around it fails, and keeps its name: what could not be
derived before has a type afterwards, which refers to the name of the tuple. -/
theorem failed_derivation_noticed :
    let failed := (tangled.staticType (.lazy 0)).exec .empty
    failed.1 = .error (.getterFailed "no target") ∧
      (tangled.inTurn [.lazy 1] .empty).1 = [.error (.getterFailed "no target")] ∧
      (tangled.inTurn [.lazy 1] failed.2).1
        = [.ok (.schema .lazy (some [.reference "DerivedLazy1"]))] ∧
      failed.2.names.derived.lookup "DerivedLazy1"
        = some (.schema .array (some [.schema .lazy (some [.reference "DerivedLazy0"])])) ∧
      failed.2.names.derived.lookup "DerivedLazy0" = none := by
  intro failed
  simp only [failed]
  refine ⟨?_, ?_, ?_, ?_, ?_⟩ <;> cbv

/-- A leaf that is complete when the tuple around it fails keeps its name too, but nobody can tell. -/
theorem failed_derivation_unnoticed_leaf :
    let before := tangled.inTurn [.leaf 7 .any] .empty
    let failed := (tangled.staticType (.tuple 8 [.lazy 6, .lazy 2])).exec before.2
    failed.1 = .error (.getterFailed "no target") ∧ failed.2.IsNamed 6 ∧
      ∀ later,
        let left := tangled.inTurn later failed.2
        let right := tangled.inTurn later before.2
        List.Forall₂ (SameAnswer left.2.names right.2.names) (before.1 ++ left.1)
          (before.1 ++ right.1) := by
  intro before failed
  have fails : failed.1 = .error (.getterFailed "no target") := by
    simp only [failed, before]
    cbv
  have names : failed.2.lazyNames = [(6, "DerivedLazy0")] := by
    simp only [failed, before]
    cbv
  have derived : ((tangled.staticType (.lazy 6)).exec before.2).1
      = .ok (.schema .lazy (some [.reference "DerivedLazy0"])) := by
    simp only [before]
    cbv
  have fresh : Fresh .empty := ⟨rfl, rfl⟩
  have unnoticed := (failed_derivation_unnoticed_iff fresh (Prod.ext fails rfl)).1
  refine ⟨fails, ⟨"DerivedLazy0", ?_⟩, unnoticed.mpr ?_⟩
  · unfold Registry.Named
    rw [names]
    rfl
  · rintro id ⟨n, hn⟩ _
    unfold Registry.Named at hn
    rw [names] at hn
    obtain rfl : id = 6 := by
      by_contra hne
      simp [List.lookup_cons, beq_false_of_ne hne] at hn
    exact ⟨_, _, Prod.ext derived rfl⟩

end Scope

end Schemata
