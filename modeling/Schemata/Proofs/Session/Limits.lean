import Schemata.Proofs.Compilation.Transfer
import Schemata.Proofs.Output.Limits
import Schemata.Proofs.Schema.Identity
import Schemata.Proofs.Session.Changes
import Schemata.Proofs.Session.Outputs

/-!
# What is remembered under other limits

A session remembers plans and output types that were made under the limits in force at the time. An
answer that rests on them is the one that a fresh session gives if all limits that were in force
decide alike; otherwise it may be an answer that no fresh session gives under the present limit.
-/

namespace Schemata

theorem Workshop.Grows.within {w w' : Workshop} {own own' : Identities} (h : w.Grows own w' own')
    (identified : w.Identified own) : w.scope.Within w'.scope where
  target := h.target identified

namespace Session

variable {P : Nat → Prop} {σ σ' : Session} {own own' : Identities}

/-- A session with the same schemas, types and settings that remembers nothing. -/
def fresh (σ : Session) : Session :=
  { σ with calls := .empty, outputs := [], validators := [] }

/-- What a session remembers was made under limits that satisfy `P`: every plan from the schema with
its identity, and the output types by queries in turn. -/
structure Recalls (P : Nat → Prop) (σ : Session) (own : Identities) : Prop where
  identified : σ.workshop.Identified own
  limit : P σ.settings.maxUnwrapDepth
  validators {id : NodeId} {v : Validator} : (id, v) ∈ σ.validators →
    ∃ s limit, s.id = id ∧ own.Has s ∧ P limit ∧
      (σ.workshop.scope.compile limit s).outcome = .ok v
  outputs : ∃ queries : List OutputCache.Query,
    (∀ q ∈ queries, P q.limit) ∧ σ.outputs = OutputCache.after queries

/-- Making schemas keeps what is remembered. -/
theorem Recalls.makes {b : Blueprint} {label : String} {item : Item} {workshop : Workshop}
    (h : σ.Recalls P own) (made : b.make label σ.workshop = .ok (item, workshop)) :
    ∃ own', own.Le own' ∧ Recalls P { σ with workshop } own' ∧ own'.HasItem item := by
  obtain ⟨own', grows, hitem⟩ := Blueprint.make_gives b label h.identified item workshop made
  refine ⟨own', grows.le, ⟨grows.identified, h.limit, fun {id v} hv => ?_, h.outputs⟩, hitem⟩
  obtain ⟨s, limit, hid, hs, hlimit, compiled⟩ := h.validators hv
  exact ⟨s, limit, hid, grows.le.has hs, hlimit, (grows.within h.identified).compile compiled⟩

/-- Apart from compiling, every change keeps what is remembered. -/
theorem Change.recalls (change : Change (fun _ => False) σ σ')
    (hP : P σ'.settings.maxUnwrapDepth) (h : σ.Recalls P own) : ∃ own', σ'.Recalls P own' := by
  cases change with
  | makes made =>
    obtain ⟨own', _, recalls, _⟩ := h.makes made
    exact ⟨own', recalls⟩
  | asks ids => exact ⟨own, h.identified, h.limit, h.validators, h.outputs⟩
  | derives s => exact ⟨own, h.identified, h.limit, h.validators, h.outputs⟩
  | builds t =>
    obtain ⟨queries, limits, before⟩ := h.outputs
    let q : OutputCache.Query :=
      { names := σ.registry.names, limit := σ.settings.maxUnwrapDepth, type := t }
    refine ⟨own, h.identified, h.limit, h.validators, queries ++ [q], ?_, ?_⟩
    · intro q' hq'
      rcases List.mem_append.mp hq' with hq' | hq'
      · exact limits q' hq'
      · obtain rfl := List.mem_singleton.mp hq'
        exact h.limit
    · rw [OutputCache.after_append, ← before]
  | compiles never => exact never.elim
  | assigns assigned => exact ⟨own, h.identified, hP, h.validators, h.outputs⟩
  | logs logger => exact ⟨own, h.identified, h.limit, h.validators, h.outputs⟩

/-- Sessions that remember plans and outputs as they should go on to do so. -/
def KeepsRecall (P : Nat → Prop) (σ σ' : Session) : Prop :=
  (∃ own, σ.Recalls P own) → ∃ own, σ'.Recalls P own

instance : IsPreorder Session (KeepsRecall P) where
  refl _ h := h
  trans _ _ _ h h' := h' ∘ h

theorem spans_keepsRecall : Spans (fun _ => False) P (KeepsRecall P) where
  changes := by
    rintro σ σ' changes ⟨own, h⟩
    have steps := changes h.limit
    clear changes
    induction steps with
    | refl => exact ⟨own, h⟩
    | tail _ step ih =>
      obtain ⟨own', h'⟩ := ih
      exact step.1.recalls step.2 h'
  start := fun h ⟨own, recalls⟩ => h recalls.limit ⟨own, recalls⟩

/-! ## Parsing -/

section

variable {α β : Type} {m : Activity α} {f : α → Activity β} {Q : Identities → α → Prop}
  {Q' : Identities → β → Prop}

/-- An activity keeps what is remembered, and its result has an identity of its own. -/
def Secures (P : Nat → Prop) (m : Activity α) (Q : Identities → α → Prop) (σ : Session) : Prop :=
  ∃ own, (m.exec σ).2.Recalls P own ∧ ∀ a, (m.exec σ).1 = .ok a → Q own a

namespace Secures

theorem bind (hm : Secures P m Q σ)
    (hf : ∀ a σ' own, σ'.Recalls P own → Q own a → Secures P (f a) Q' σ') :
    Secures P (m >>= f) Q' σ := by
  obtain ⟨own, recalls, result⟩ := hm
  rw [Secures, Stateful.exec_bind]
  generalize m.exec σ = run at recalls result
  obtain ⟨_ | a, σ'⟩ := run
  · exact ⟨own, recalls, fun _ h => nomatch h⟩
  · exact hf a σ' own recalls (result a rfl)

theorem pure {a : α} (h : σ.Recalls P own) (ha : Q own a) :
    Secures P (Pure.pure a : Activity α) Q σ := by
  refine ⟨own, h, ?_⟩
  rintro _ ⟨⟩
  exact ha

theorem ofExcept {x : Except Failure α} (h : σ.Recalls P own) (ha : ∀ a, x = .ok a → Q own a) :
    Secures P (MonadExcept.ofExcept x : Activity α) Q σ := by
  rw [Secures, Stateful.exec_ofExcept]
  exact ⟨own, h, ha⟩

end Secures

end

theorem Recalls.asking (h : σ.Recalls P own) (ids : List NodeId) : (σ.asking ids).Recalls P own :=
  ⟨h.identified, h.limit, h.validators, h.outputs⟩

theorem secures_makeItem (b : Blueprint) (h : σ.Recalls P own) :
    Secures P (makeItem b) Identities.HasItem σ := by
  rw [Secures, makeItem, exec_making]
  cases made : b.make rootLabel σ.workshop with
  | error failure => exact ⟨own, h, fun _ h => nomatch h⟩
  | ok made' =>
    obtain ⟨own', _, recalls, hitem⟩ := h.makes made
    refine ⟨own', recalls, ?_⟩
    rintro _ ⟨⟩
    exact hitem

theorem secures_schemaAt {item : Item} (path : PathArgument) (h : σ.Recalls P own)
    (hi : own.HasItem item) : Secures P (schemaAt item path) Identities.Has σ := by
  cases item with
  | value v => exact ⟨own, h, fun _ h => nomatch h⟩
  | schema root =>
    rw [Secures, exec_schemaAt_resolve]
    refine ⟨own, h.asking _, fun s found => ?_⟩
    exact h.identified.contains (Scope.contains_of_resolve found) hi

/-- A plan that is remembered from now on was made under the present limit. -/
theorem secures_validatorOf {s : Schema} (h : σ.Recalls P own) (hs : own.Has s) :
    Secures P (validatorOf s) (fun _ _ => True) σ := by
  rw [Secures, exec_validatorOf]
  cases found : σ.validators.lookup s.id with
  | some v => exact ⟨own, h, fun _ _ => trivial⟩
  | none =>
    cases made : (σ.workshop.scope.compile σ.settings.maxUnwrapDepth s).outcome with
    | error failure => exact ⟨own, h.asking _, fun _ _ => trivial⟩
    | ok v =>
      refine ⟨own, ⟨h.identified, h.limit, fun {id w} hw => ?_, h.outputs⟩, fun _ _ => trivial⟩
      rcases List.mem_cons.mp hw with heq | hw
      · cases heq
        exact ⟨s, _, rfl, hs, h.limit, made⟩
      · exact h.validators hw

theorem secures_parseWith {item : Item} (v : Value) (h : σ.Recalls P own)
    (hi : own.HasItem item) : Secures P (parseWith item v) (fun _ _ => True) σ := by
  refine Secures.bind (.ofExcept (Q := Identities.Has) h fun s hs => ?_) fun s σ' own' h' hs =>
    (secures_validatorOf h' hs).bind fun _ _ _ h'' _ => .ofExcept h'' fun _ _ => trivial
  cases item with
  | value v => cases hs
  | schema t =>
    obtain rfl : t = s := Except.ok.inj hs
    exact hi

theorem keepsRecall_of_secures {α : Type} {m : Activity α}
    (h : ∀ σ own, σ.Recalls P own → Secures P m (fun _ _ => True) σ) : Keeps (KeepsRecall P) m :=
  fun σ ⟨own, recalls⟩ =>
    let ⟨own', recalls', _⟩ := h σ own recalls
    ⟨own', recalls'⟩

/-- Every operation that sets only limits with `P` keeps what is remembered. -/
theorem keepsRecall_operation (op : Operation) (h : op.Admits (fun _ => True) P) :
    Keeps (KeepsRecall P) op.perform := by
  have others (h : op.Admits (fun _ => False) P) : Keeps (KeepsRecall P) op.perform :=
    (op.keeps_perform h).imp fun _ _ => spans_keepsRecall.changes
  cases op with
  | parse schema path v =>
    refine keepsRecall_of_secures fun σ own h =>
      (secures_makeItem schema h).bind fun item σ₁ own₁ h₁ hi => ?_
    have parsed (item : Item) (σ : Session) (own : Identities) (h : σ.Recalls P own)
        (hi : own.HasItem item) :
        Secures P (do return .value (← parseWith item v)) (fun _ (_ : Answer) => True) σ :=
      (secures_parseWith v h hi).bind fun _ _ _ h _ => .pure h trivial
    cases path with
    | none => exact (Secures.pure h₁ hi).bind parsed
    | some path =>
      have found : Secures P (do schemaAt item (← makePath path)) Identities.Has σ₁ := by
        refine Secures.bind (Q := fun own _ => own.HasItem item) ?_ fun path _ _ h hi =>
          secures_schemaAt path h hi
        exact .ofExcept h₁ fun _ _ => hi
      have schema : Secures P (.schema <$> (do schemaAt item (← makePath path)))
          Identities.HasItem σ₁ := by
        rw [map_eq_pure_bind]
        exact found.bind fun _ _ _ h hs => .pure h hs
      exact schema.bind parsed
  | parseAndAppend schema v target item =>
    exact keepsRecall_of_secures fun σ own h =>
      (secures_makeItem schema h).bind fun made _ _ h hi =>
      (secures_parseWith v h hi).bind fun _ _ _ h _ =>
      Secures.bind (.ofExcept (Q := fun _ _ => True) h fun _ _ => trivial)
        fun _ _ _ h _ => .pure h trivial
  | assignSettings given => exact others h
  | _ => exact others trivial

/-! ## Preparation -/

/-- Sessions that have no plans yet go on to have none. -/
def KeepsBlank (P : Nat → Prop) (σ σ' : Session) : Prop :=
  (σ.validators = [] ∧ ∃ own, σ.Recalls P own) → σ'.validators = [] ∧ ∃ own, σ'.Recalls P own

instance : IsPreorder Session (KeepsBlank P) where
  refl _ h := h
  trans _ _ _ h h' := h' ∘ h

theorem Changes.validators (changes : Changes (fun _ => False) P σ σ')
    (hP : P σ.settings.maxUnwrapDepth) : σ'.validators = σ.validators := by
  have steps := changes hP
  clear changes
  induction steps with
  | refl => rfl
  | tail _ step ih =>
    cases step.1 with
    | compiles never => exact never.elim
    | _ => exact ih

theorem keepsBlank_prepare (defs : List (String × Blueprint))
    (types : List (String × Declaration)) : Keeps (KeepsBlank P) (prepare defs types) := by
  refine keeps_prepare (fun t σ => ?_) (fun σ _ _ => ?_) (fun name b σ => ?_) defs types
  · rintro ⟨blank, own, h⟩
    have changes : Changes (fun _ => False) P σ ((makeType t).exec σ).2 := keeps_makeType t σ
    exact ⟨(changes.validators h.limit).trans blank, spans_keepsRecall.changes changes ⟨own, h⟩⟩
  · rintro ⟨blank, own, h⟩
    exact ⟨blank, own, h.identified, h.limit, h.validators, h.outputs⟩
  · rintro ⟨blank, own, h⟩
    rw [exec_making]
    cases defined : Blueprint.defineAll [(name, b)] σ.workshop with
    | error failure => exact ⟨blank, own, h⟩
    | ok made =>
      obtain ⟨own', identified⟩ := Blueprint.defineAll_identified h.identified defined
      refine ⟨blank, own', identified, h.limit, fun {id v} hv => ?_, h.outputs⟩
      change (id, v) ∈ σ.validators at hv
      rw [blank] at hv
      cases hv

/-- After preparation and requests, a session remembers plans and outputs as it should. -/
theorem recalls_of_requests (start : P initial.settings.maxUnwrapDepth)
    (defs : List (String × Blueprint)) (types : List (String × Declaration))
    {requests : List Request} (admits : Request.AdmitsAll (fun _ => True) P requests) :
    ∃ own, ((Request.performAll requests).exec ((prepare defs types).exec initial).2).2.Recalls
      P own := by
  have blank : initial.Recalls P fun _ => none :=
    ⟨.empty, start, fun h => (List.not_mem_nil h).elim, [], fun _ h => (List.not_mem_nil h).elim,
      rfl⟩
  have prepared := (keepsBlank_prepare defs types initial ⟨rfl, _, blank⟩).2
  exact Request.keepsAll_of_operations spans_keepsRecall keepsRecall_operation requests admits _
    prepared

/-! ## Answers -/

theorem outcome_parseWith (s : Schema) (v : Value) (σ : Session) :
    ((parseWith (.schema s) v).exec σ).1
      = ((validatorOf s).exec σ).1.bind fun validator => validator.validate v := by
  rcases planned : (validatorOf s).exec σ with ⟨_ | validator, σ'⟩ <;>
    simp [parseWith, planned, Except.bind]

theorem outcome_validatorOf {s : Schema} (h : σ.validators.lookup s.id = none) :
    ((validatorOf s).exec σ).1
      = (σ.workshop.scope.compile σ.settings.maxUnwrapDepth s).outcome := by
  rw [exec_validatorOf, h]
  cases (σ.workshop.scope.compile σ.settings.maxUnwrapDepth s).outcome <;> rfl

/-- A session parses as a fresh one does if the limits in force when plans were made decide alike.
-/
theorem Recalls.parseWith_fresh {s : Schema} (h : σ.Recalls P own) (hs : own.Has s)
    (alike : ∀ limit, P limit →
      σ.workshop.scope.Transfers limit σ.workshop.scope σ.settings.maxUnwrapDepth s) (v : Value) :
    ((parseWith (.schema s) v).exec σ).1 = ((parseWith (.schema s) v).exec σ.fresh).1 := by
  have afresh : ((validatorOf s).exec σ.fresh).1
      = (σ.workshop.scope.compile σ.settings.maxUnwrapDepth s).outcome :=
    outcome_validatorOf rfl
  have here : ((validatorOf s).exec σ).1
      = (σ.workshop.scope.compile σ.settings.maxUnwrapDepth s).outcome := by
    cases found : σ.validators.lookup s.id with
    | none => exact outcome_validatorOf found
    | some validator =>
      obtain ⟨t, limit, hid, ht, hlimit, compiled⟩ := h.validators (mem_of_lookup found)
      obtain rfl := ht.eq hs hid
      rw [exec_validatorOf, found]
      exact (Scope.compile_transfer (alike limit hlimit) compiled).symm
  rw [outcome_parseWith, outcome_parseWith, afresh, here]

/-- Parsing and output types after any history of requests. A value is parsed as in a fresh session
if all limits that were in force decide alike on what compiling the schema builds. Output types are
given as in a session in which all queries came under the present limit, if the limits decide alike
on what the queries meet. -/
theorem answers_of_alike_limits {P : Nat → Prop} (start : P initial.settings.maxUnwrapDepth)
    (defs : List (String × Blueprint)) (types : List (String × Declaration))
    (requests : List Request) (admits : Request.AdmitsAll (fun _ => True) P requests) :
    let σ := ((Request.performAll requests).exec ((prepare defs types).exec initial).2).2
    (∀ b root σ' s v, (makeItem b).exec σ = (.ok (.schema root), σ') →
      σ'.workshop.scope.Contains root s →
      (∀ limit, P limit →
        σ'.workshop.scope.Transfers limit σ'.workshop.scope σ'.settings.maxUnwrapDepth s) →
      ((parseWith (.schema s) v).exec σ').1 = ((parseWith (.schema s) v).exec σ'.fresh).1) ∧
    ∃ queries : List OutputCache.Query, (∀ q ∈ queries, P q.limit) ∧
      σ.outputs = OutputCache.after queries ∧
      ((∀ q ∈ queries, q.names.DecideAlike q.limit σ.settings.maxUnwrapDepth q.type) →
        ∀ t, ((outputOfType t).exec σ).1 = ((outputOfType t).exec { σ.fresh with
          outputs := OutputCache.after (queries.map (·.under σ.settings.maxUnwrapDepth)) }).1) := by
  intro σ
  obtain ⟨own, recalls⟩ := recalls_of_requests start defs types admits
  refine ⟨fun b root σ' s v made contains alike => ?_, ?_⟩
  · obtain ⟨own', recalls', hroot⟩ := secures_makeItem b recalls
    rw [made] at recalls' hroot
    have hs : own'.Has s := recalls'.identified.contains contains (hroot _ rfl)
    exact recalls'.parseWith_fresh hs alike v
  · obtain ⟨queries, limits, outputs⟩ := recalls.outputs
    refine ⟨queries, limits, outputs, fun alike t => ?_⟩
    rw [exec_outputOfType, exec_outputOfType, OutputCache.after_under alike, ← outputs]
    rfl

/-! ## A decision near the limit -/

/-- Objects whose only property is optional, which shows behind one more wrapper. -/
def sparse : Blueprint :=
  .object [(.str "a", .wrapper .nullable (.wrapper .optional (.leaf (.string true))))]

/-- The schema that is made of it. -/
def sparseSchema : Schema :=
  .object 3 [("a", .wrapper 2 .nullable (.wrapper 1 .optional (.leaf 0 (.string true))))]

/-- Parse an object without properties. -/
def parseNothing : Operation :=
  .parse (.named "S") none (.dict [])

/-- A session that has parsed an object under another limit, which is restored. -/
def parsedUnder (limit : Int) : Session :=
  let block : Request := .within [("max_unwrap_depth", .int limit)] (.operation parseNothing)
  ((Request.performAll [block]).exec ((prepare [("S", sparse)] []).exec initial).2).2

theorem sparse_builds {scope : Scope} {limit : Nat} {s : Schema}
    (h : scope.Builds limit sparseSchema s) :
    s = sparseSchema ∨ s = .wrapper 2 .nullable (.wrapper 1 .optional (.leaf 0 (.string true))) ∨
      s = .wrapper 1 .optional (.leaf 0 (.string true)) ∨ s = .leaf 0 (.string true) := by
  induction h with
  | refl => exact .inl rfl
  | tail _ step ih =>
    rcases ih with rfl | rfl | rfl | rfl <;>
      rcases step with hc | _ <;> simp [Schema.children, sparseSchema] at hc <;> simp [hc]

/-- Limits from two on decide alike. -/
theorem sparse_transfers (scope : Scope) {limit : Nat} (h : 2 ≤ limit) :
    scope.Transfers limit scope 64 sparseSchema where
  force builds := by
    rcases sparse_builds builds with h | h | h | h <;> cases h
  absence {s kind} builds := by
    obtain ⟨rest, rfl⟩ : ∃ rest, limit = rest + 2 := ⟨limit - 2, by omega⟩
    rcases sparse_builds builds with rfl | rfl | rfl | rfl <;> exact id

/-- After the schema was compiled under a limit of two, an object without properties is parsed as in
a fresh session. -/
theorem answers_of_alike_limits_sparse :
    (parsedUnder 2).settings = initial.settings ∧ (parsedUnder 2).validators.length = 1 ∧
      ((parseWith (.schema sparseSchema) (.dict [])).exec (parsedUnder 2)).1
        = ((parseWith (.schema sparseSchema) (.dict [])).exec (parsedUnder 2).fresh).1 := by
  have restored : (parsedUnder 2).settings = initial.settings := by cbv
  have remembered : (parsedUnder 2).validators.length = 1 := by cbv
  have defined : (parsedUnder 2).workshop.scope.lookup? "S" = some (.schema sparseSchema) := by cbv
  have made : (makeItem (.named "S")).exec (parsedUnder 2)
      = (.ok (.schema sparseSchema), parsedUnder 2) := by
    rw [makeItem, exec_making]
    change (Except.ok (((parsedUnder 2).workshop.scope.lookup? "S").getD _), parsedUnder 2) = _
    rw [defined]
    rfl
  have admits : Request.AdmitsAll (fun _ => True) (2 ≤ ·)
      [.within [("max_unwrap_depth", .int 2)] (.operation parseNothing)] := by
    refine ⟨⟨fun entry hentry settings settings' assigned _ => ?_, fun _ => trivial⟩, trivial⟩
    obtain rfl := List.mem_singleton.mp hentry
    exact (Settings.limit_of_assign assigned).ge
  have alike (limit : Nat) (h : 2 ≤ limit) :
      (parsedUnder 2).workshop.scope.Transfers limit (parsedUnder 2).workshop.scope
        (parsedUnder 2).settings.maxUnwrapDepth sparseSchema := by
    rw [restored]
    exact sparse_transfers _ h
  exact ⟨restored, remembered, (answers_of_alike_limits (by decide) [("S", sparse)] [] _ admits).1
    _ _ _ _ (.dict []) made .refl alike⟩

/-- After the schema was compiled under a limit of one, an object without properties is refused,
though all settings are restored and a fresh session accepts it. -/
theorem plan_outlives_limit :
    (parsedUnder 1).settings = initial.settings ∧
      (parseNothing.perform.exec (parsedUnder 1)).1
        = .error (.invalid [(Issue.here .missing (.dict [])).under (.key "a")]) ∧
      (parseNothing.perform.exec (parsedUnder 1).fresh).1 = .ok (.value (.dict [])) := by
  refine ⟨?_, ?_, ?_⟩
  · cbv
  · cbv
  · cbv

end Session

end Schemata
