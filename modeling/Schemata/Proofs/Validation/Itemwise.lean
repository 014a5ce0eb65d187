import Mathlib
import Schemata.Proofs.Validation.Fieldwise

/-!
# Tuples item by item

A tuple checks each of its items as the schema of the item checks it by itself, although all of them
are compiled together. A value that is too long is refused. In one that is too short, the items that
stand for a default contribute it, and all others are missing.
-/

namespace Schemata

/-! ## Verdicts that find a result -/

namespace Verdict

variable {α β γ : Type} {P : α → Prop} {Q : β → Prop} {v : Verdict α}

/-- The verdict accepts with the only result that satisfies `P`, or it refuses and nothing satisfies
`P`. -/
def Finds (P : α → Prop) : Verdict α → Prop
  | accepted a _ => P a ∧ ∀ b, P b → b = a
  | refused _ => ∀ a, ¬ P a
  | failed _ => False

theorem Finds.toExcept (h : v.Finds P) :
    (∀ a, v.toExcept = .ok a ↔ P a) ∧
      ∀ failure, v.toExcept = .error failure → ∃ issues, failure = .invalid issues := by
  cases v with
  | accepted b st =>
    refine ⟨fun a => ⟨fun same => ?_, fun ha => ?_⟩, fun failure fails => ?_⟩
    · obtain rfl := Except.ok.inj same
      exact h.1
    · rw [h.2 a ha]
      rfl
    · cases fails
  | refused issues =>
    refine ⟨fun a => ⟨fun same => ?_, fun ha => absurd ha (h a)⟩, fun failure fails => ?_⟩
    · cases same
    · exact ⟨issues, (Except.error.inj fails).symm⟩
  | failed => cases h

theorem Finds.congr {P' : α → Prop} (h : v.Finds P) (same : ∀ a, P a ↔ P' a) : v.Finds P' :=
  (funext fun a => propext (same a) : P = P') ▸ h

theorem Finds.under (h : v.Finds P) (step : Place) : (v.under step).Finds P := by
  cases v <;> exact h

theorem Finds.map (h : v.Finds P) (f : α → β) : (v.map f).Finds fun b => ∃ a, P a ∧ b = f a := by
  cases v with
  | accepted a st =>
    refine ⟨⟨a, h.1, rfl⟩, ?_⟩
    rintro _ ⟨b, hb, rfl⟩
    rw [h.2 b hb]
  | refused =>
    rintro _ ⟨a, ha, _⟩
    exact h a ha
  | failed => cases h

theorem Finds.both (h : v.Finds P) {second : Standing → Verdict β}
    (after : ∀ st, (second st).Finds Q) (f : α → β → γ) (st : Standing) :
    (v.both st second f).Finds fun c => ∃ a b, P a ∧ Q b ∧ c = f a b := by
  cases v with
  | accepted a st' =>
    refine ((after st').map (f a)).congr fun c => ⟨?_, ?_⟩
    · rintro ⟨b, hb, rfl⟩
      exact ⟨a, b, h.1, hb, rfl⟩
    · rintro ⟨a', b, ha, hb, rfl⟩
      exact ⟨b, hb, by rw [h.2 a' ha]⟩
  | refused issues =>
    have never (c : γ) : ¬ ∃ a b, P a ∧ Q b ∧ c = f a b := by
      rintro ⟨a, _, ha, _⟩
      exact h a ha
    have rest := after st
    simp only [Verdict.both]
    generalize second st = w at rest
    cases w with
    | accepted | refused => exact never
    | failed => cases rest
  | failed => cases h

end Verdict

/-- One item after the other, whether or not there is a value for it. -/
theorem Check.items_cons (container : Value) (start : Nat) (item : ItemCheck)
    (others : List ItemCheck) (given : List Value) (st : Standing) :
    items container start (item :: others) given st =
      (match given[0]? with
        | some v => (item.check [] v st).under (.index start)
        | none => item.absent start container st).both st
          (items container (start + 1) others given.tail) List.cons := by
  cases given <;> rfl

namespace Scope

variable {scope : Scope} {limit : Nat} {s : Schema} {items : List Schema} {id : NodeId}

/-! ## What items come to -/

section

variable (scope : Scope) (limit : Nat)

/-- What an item comes to: the value that is given for it, as the item validates it by itself, or the
default of the item if none is given. -/
inductive ItemResult (s : Schema) : Option Value → Value → Prop
  | given {v r : Value} : scope.parse limit s v = .ok r → ItemResult s (some v) r
  | absent {r : Value} : StandsForDefault s → scope.parse limit s .missing = .ok r →
    ItemResult s none r

/-- What all items come to, one result for each. -/
def ItemResults (items : List Schema) (given results : List Value) : Prop :=
  results.length = items.length ∧ ∀ (j : Nat) item r, items[j]? = some item → results[j]? = some r →
    scope.ItemResult limit item given[j]? r

end

variable {given results : List Value}

@[simp]
theorem itemResults_nil : scope.ItemResults limit [] given results ↔ results = [] := by
  refine ⟨fun h => List.length_eq_zero_iff.mp h.1, ?_⟩
  rintro rfl
  exact ⟨rfl, fun j item r hitem => by cases hitem⟩

@[simp]
theorem itemResults_cons : scope.ItemResults limit (s :: items) given results ↔
    ∃ r rest, scope.ItemResult limit s given[0]? r ∧ scope.ItemResults limit items given.tail rest ∧
      results = r :: rest := by
  constructor
  · rintro ⟨length, each⟩
    cases results with
    | nil => cases length
    | cons r rest =>
      refine ⟨r, rest, each 0 s r rfl rfl, ⟨Nat.succ.inj length, fun j item r' hitem hr => ?_⟩, rfl⟩
      rw [List.getElem?_tail]
      exact each (j + 1) item r' hitem hr
  · rintro ⟨r, rest, first, ⟨length, each⟩, rfl⟩
    refine ⟨congrArg Nat.succ length, fun j item r' hitem hr => ?_⟩
    cases j with
    | zero =>
      cases hitem
      cases hr
      exact first
    | succ j =>
      rw [← List.getElem?_tail]
      exact each j item r' hitem hr

/-! ## Items -/

/-- What stands for a default makes that of absence. -/
theorem StandsForDefault.exists_supply {number : NodeId → Nat → Prop} {p : Plan}
    (h : StandsForDefault s) (hp : scope.Plans limit number s p) :
    ∃ value, p.supply? = some (.copy value) ∧
      ∀ definitions depth known entered st,
        p.check definitions depth known entered .missing st = .accepted value st := by
  induction h generalizing p with
  | @default id value inner =>
    cases hp with
    | wrapper =>
      refine ⟨value, rfl, fun definitions depth known entered st => ?_⟩
      rw [planOfWrapper, Plan.check, Plan.check]
      rfl
  | readonly _ ih =>
    cases hp with
    | wrapper hp => exact ih hp
  | alone _ ih =>
    cases hp with
    | union hps =>
      obtain _ | ⟨hp, hps⟩ := hps
      cases hps
      obtain ⟨value, supplied, accepted⟩ := ih hp
      refine ⟨value, (Plan.supply?_union_singleton _).trans supplied,
        fun definitions depth known entered st => ?_⟩
      rw [Plan.check, Plan.choiceChecks, Plan.choiceChecks]
      exact accepted definitions depth known entered st

variable {root : Schema} {d : Draft} {plan p : Plan}

/-- A value that an item is given is checked as by the item itself. -/
theorem Finished.check_finds (h : scope.Finished limit root d plan)
    (hp : scope.Plans limit d.Numbers s p)
    (compiles : ∃ w, (scope.compile limit s).outcome = .ok w) {v : Value}
    (clean : ∀ failure, scope.parse limit s v = .error failure → ∃ issues, failure = .invalid issues)
    (st : Standing) :
    (p.check d.definitions Validator.referenceLimit d.definitions [] v st).Finds
      fun r => scope.parse limit s v = .ok r := by
  obtain ⟨w, compiled⟩ := compiles
  obtain ⟨own, parsed, alike⟩ := h.exists_matches hp compiled v st
  rw [← parsed] at clean ⊢
  generalize p.check d.definitions Validator.referenceLimit d.definitions [] v st = verdict at alike
  cases alike with
  | accepted => exact ⟨rfl, fun b hb => (Except.ok.inj hb).symm⟩
  | refused => exact fun a ha => by cases ha
  | failed other =>
    obtain ⟨issues, same⟩ := clean _ rfl
    exact absurd same (other issues)
  | unlike partly _ => exact absurd trivial partly

/-- The check of an item at its position. -/
theorem Finished.item_finds (h : scope.Finished limit root d plan)
    (hp : scope.Plans limit d.Numbers s p)
    (compiles : ∃ w, (scope.compile limit s).outcome = .ok w) {g : Option Value}
    (clean : ∀ v, g = some v → ∀ failure, scope.parse limit s v = .error failure →
      ∃ issues, failure = .invalid issues)
    (container : Value) (position : Nat) (st : Standing) :
    let check : Check.ItemCheck :=
      { check := p.check d.definitions Validator.referenceLimit d.definitions
        supply? := p.supply? }
    (match g with
      | some v => (check.check [] v st).under (.index position)
      | none => check.absent position container st).Finds (scope.ItemResult limit s g) := by
  intro check
  cases g with
  | some v =>
    refine ((h.check_finds hp compiles (clean v rfl) st).under _).congr fun r => ⟨.given, ?_⟩
    rintro ⟨parsed⟩
    assumption
  | none =>
    change (check.absent position container st).Finds _
    unfold Check.ItemCheck.absent
    by_cases standing : StandsForDefault s
    · obtain ⟨value, supplied, accepted⟩ := standing.exists_supply hp
      have parsed : scope.parse limit s .missing = .ok value := by
        obtain ⟨w, compiled⟩ := compiles
        obtain ⟨own, parsed, alike⟩ := h.exists_matches hp compiled .missing st
        rw [accepted] at alike
        rw [← parsed]
        cases alike with
        | accepted => rfl
        | unlike partly _ => exact absurd trivial partly
      simp only [check, supplied]
      refine ⟨.absent standing parsed, ?_⟩
      rintro r (_ | ⟨_, parsed'⟩)
      exact Except.ok.inj (parsed'.symm.trans parsed)
    · simp only [check, hp.supply?_eq_none standing]
      rintro r (_ | ⟨standing', _⟩)
      exact standing standing'

/-! ## Whole tuples -/

/-- The items of a tuple are checked one after the other. What an item leaves behind is where the
next one starts, so this is said for every standing. -/
theorem Finished.items_find (h : scope.Finished limit root d plan) {ps : List Plan}
    (hps : scope.PlansAll limit d.Numbers items ps) {given : List Value}
    (children : ∀ item ∈ items, ∃ w, (scope.compile limit item).outcome = .ok w)
    (clean : ∀ (j : Nat) item v, items[j]? = some item → given[j]? = some v →
      ∀ failure, scope.parse limit item v = .error failure → ∃ issues, failure = .invalid issues)
    (container : Value) (start : Nat) (st : Standing) :
    (Check.items container start
      (Plan.itemChecks d.definitions Validator.referenceLimit d.definitions ps) given st).Finds
        (scope.ItemResults limit items given) := by
  induction items generalizing ps given start st with
  | nil =>
    cases hps
    rw [Plan.itemChecks]
    exact ⟨itemResults_nil.mpr rfl, fun _ => itemResults_nil.mp⟩
  | cons s items ih =>
    obtain _ | ⟨hp, hps⟩ := hps
    rw [Plan.itemChecks, Check.items_cons]
    have first := h.item_finds hp (children s List.mem_cons_self) (clean 0 s · rfl) container start
      st
    have others (item : Schema) (hitem : item ∈ items) := children item (List.mem_cons_of_mem _ hitem)
    have rest := ih hps others
      (fun j item v hitem (hv : given.tail[j]? = some v) =>
        clean (j + 1) item v hitem (List.getElem?_tail ▸ hv))
      (start + 1)
    exact (first.both rest List.cons st).congr fun _ => itemResults_cons.symm

theorem length_itemChecks (definitions known : List (Nat × Plan)) (depth : Nat) (ps : List Plan) :
    (Plan.itemChecks definitions depth known ps).length = ps.length := by
  induction ps with
  | nil => rw [Plan.itemChecks]; rfl
  | cons p ps ih => rw [Plan.itemChecks, List.length_cons, ih, List.length_cons]

theorem PlansAll.length_eq {number : NodeId → Nat → Prop} {ps : List Plan}
    (h : scope.PlansAll limit number items ps) : ps.length = items.length := by
  induction items generalizing ps with
  | nil =>
    cases h
    rfl
  | cons s items ih =>
    obtain _ | ⟨_, hps⟩ := h
    rw [List.length_cons, ih hps, List.length_cons]

theorem Finished.itemsOf_finds (h : scope.Finished limit root d plan) {ps : List Plan}
    (hps : scope.PlansAll limit d.Numbers items ps) {given : List Value}
    (children : ∀ item ∈ items, ∃ w, (scope.compile limit item).outcome = .ok w)
    (clean : ∀ (j : Nat) item v, items[j]? = some item → given[j]? = some v →
      ∀ failure, scope.parse limit item v = .error failure → ∃ issues, failure = .invalid issues)
    (container : Value) (st : Standing) :
    (Check.itemsOf container
      (Plan.itemChecks d.definitions Validator.referenceLimit d.definitions ps) given st).Finds
        fun r => given.length ≤ items.length ∧
        ∃ results, scope.ItemResults limit items given results ∧ r = .tuple results := by
  have found := h.items_find hps children clean container 0 st
  simp only [Check.itemsOf, length_itemChecks, hps.length_eq]
  split
  · next long =>
    -- the items are checked all the same, in case one of them breaks off
    generalize Check.items container 0 _ given st = checked at found
    cases checked with
    | failed => cases found
    | accepted | refused => exact fun r valid => absurd valid.1 (Nat.not_le.mpr long)
  · next short =>
    refine (found.map Value.tuple).congr fun r => ?_
    exact ⟨fun valid => ⟨Nat.le_of_not_lt short, valid⟩, fun valid => valid.2⟩

/-- A tuple can be compiled if its items can. -/
theorem compilable_tuple (h : ∀ item ∈ items, scope.Compilable limit item) :
    scope.Compilable limit (.tuple id items) := by
  intro u builds
  rcases Relation.ReflTransGen.cases_head builds with rfl | ⟨item, step, builds⟩
  · trivial
  · cases step with
    | child hmem => exact h item hmem u builds

/-- Tuples are validated item by item. A list or tuple is valid just when it is not too long, each of
its values is valid for the item at its position by itself, and every item without a value stands for
a default. The result is the tuple of what the items come to by themselves. Otherwise the value is
reported not to be valid, and there is no other failure. -/
theorem tuple_validates_itemwise {given : List Value} {v : Value}
    (children : ∀ item ∈ items, ∃ w, (scope.compile limit item).outcome = .ok w)
    (clean : ∀ (j : Nat) item w, items[j]? = some item → given[j]? = some w →
      ∀ failure, scope.parse limit item w = .error failure → ∃ issues, failure = .invalid issues)
    (sequence : v = .list given ∨ v = .tuple given) :
    let parsed := scope.parse limit (.tuple id items) v
    (∀ r, parsed = .ok r ↔ given.length ≤ items.length ∧
      ∃ results, scope.ItemResults limit items given results ∧ r = .tuple results) ∧
    ∀ failure, parsed = .error failure → ∃ issues, failure = .invalid issues := by
  intro parsed
  have compilable : scope.Compilable limit (.tuple id items) := compilable_tuple fun item hitem =>
    compile_isOk_iff.mp (children item hitem)
  obtain ⟨⟨root, definitions⟩, compiled⟩ := compile_isOk_iff.mpr compilable
  obtain ⟨d, rfl, finished⟩ := compile_finished compiled
  cases finished.plans with
  | @tuple _ _ ps hps =>
    let checks := Plan.itemChecks d.definitions Validator.referenceLimit d.definitions ps
    have found (st : Standing) : (Check.itemsOf v checks given st).Finds fun r =>
        given.length ≤ items.length ∧
          ∃ results, scope.ItemResults limit items given results ∧ r = .tuple results :=
      finished.itemsOf_finds hps children clean v st
    have run : ∃ st, parsed = (Check.itemsOf v checks given st).toExcept := by
      have parsed_eq : parsed
          = (Check.tuple checks [] v .initial).toExcept := by
        simp only [parsed, parse, compiled]
        change Validator.validate _ _ = _
        rw [Validator.validate, Validator.run, Plan.check]
      rcases sequence with rfl | rfl <;> exact ⟨_, parsed_eq⟩
    obtain ⟨st, run⟩ := run
    rw [run]
    exact (found st).toExcept

/-- A name with a number, which is 1 unless it is given. -/
def numbered : Schema :=
  .tuple 0 [.leaf 1 (.string true), .wrapper 2 (.default (.int 1)) (.leaf 3 (.integer true))]

/-- The default of the number is taken for a name alone. -/
theorem numbered_validates_itemwise :
    withNothing.parse 64 numbered (.list [.str "a"]) = .ok (.tuple [.str "a", .int 1]) := by
  let items : List Schema :=
    [.leaf 1 (.string true), .wrapper 2 (.default (.int 1)) (.leaf 3 (.integer true))]
  have named : withNothing.parse 64 (.leaf 1 (.string true)) (.str "a") = .ok (.str "a") := by cbv
  have absent : withNothing.parse 64 (.wrapper 2 (.default (.int 1)) (.leaf 3 (.integer true)))
      .missing = .ok (.int 1) := by cbv
  have children : ∀ item ∈ items, ∃ w, (withNothing.compile 64 item).outcome = .ok w := by
    intro item hitem
    rcases List.mem_pair.mp hitem with rfl | rfl
    · exact ⟨{ root := .string true, definitions := [] }, by cbv⟩
    · exact ⟨{ root := .supplied (.copy (.int 1)) (.valueIfMissing (.int 1) (.integer true))
               definitions := [] }, by cbv⟩
  refine ((tuple_validates_itemwise children ?_ (.inl rfl)).1 _).mpr ?_
  · intro j item w hitem hw failure fails
    cases j with
    | zero =>
      cases hitem
      cases hw
      cases named.symm.trans fails
    | succ => cases hw
  · refine ⟨by decide, [.str "a", .int 1], ⟨rfl, fun j item r hitem hr => ?_⟩, rfl⟩
    rcases j with _ | _ | j
    · cases hitem
      cases hr
      exact .given named
    · cases hitem
      cases hr
      exact .absent .default absent
    · cases hitem

/-- A name alone is valid, although there are two items. -/
theorem numbered_shorter_than_items :
    ¬ ((∃ r, withNothing.parse 64 numbered (.list [.str "a"]) = .ok r) ↔
      [Value.str "a"].length = numbered.children.length ∧
        ∀ (j : Nat) item v, numbered.children[j]? = some item → [Value.str "a"][j]? = some v →
          ∃ r, withNothing.parse 64 item v = .ok r) := by
  intro itemwise
  have parsed : withNothing.parse 64 numbered (.list [.str "a"]) = .ok (.tuple [.str "a", .int 1]) := by
    cbv
  exact absurd (itemwise.mp ⟨_, parsed⟩).1 (by decide)

end Scope

end Schemata
