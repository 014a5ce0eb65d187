import Mathlib.Data.List.Forall2
import Mathlib.Logic.Relation
import Schemata.Schema.Scope

/-!
# The graph of schemas

A schema leads to its children, and a lazy schema to its target. A search of the graph does not look
behind the lazy schemas that it has seen before; it succeeds if every lazy schema that it looks
behind has a target.
-/

namespace Schemata

/-- What is found under a key stands in the list. -/
theorem mem_of_lookup {α β : Type} [BEq α] [LawfulBEq α] {l : List (α × β)} {a : α} {b : β}
    (h : l.lookup a = some b) : (a, b) ∈ l := by
  obtain ⟨_, _, rfl, _⟩ := List.lookup_eq_some_iff.mp h
  simp

section

variable {α β : Type} {R : α → β → Prop} {as : List α} {bs : List β}

theorem exists_left_of_forall₂ (h : List.Forall₂ R as bs) {b : β} (hb : b ∈ bs) :
    ∃ a ∈ as, R a b := by
  obtain ⟨i, hi, rfl⟩ := List.getElem_of_mem hb
  exact ⟨_, List.getElem_mem (h.length_eq ▸ hi), h.get (h.length_eq ▸ hi) hi⟩

theorem exists_right_of_forall₂ (h : List.Forall₂ R as bs) {a : α} (ha : a ∈ as) :
    ∃ b ∈ bs, R a b := by
  obtain ⟨i, hi, rfl⟩ := List.getElem_of_mem ha
  exact ⟨_, List.getElem_mem (h.length_eq ▸ hi), h.get hi (h.length_eq ▸ hi)⟩

theorem forall₂_mem (h : List.Forall₂ R as bs) :
    List.Forall₂ (fun a b => a ∈ as ∧ b ∈ bs ∧ R a b) as bs := by
  obtain ⟨hlength, hpairs⟩ := List.forall₂_iff_zip.mp h
  refine List.forall₂_iff_zip.mpr ⟨hlength, fun hpair => ?_⟩
  obtain ⟨ha, hb⟩ := List.of_mem_zip hpair
  exact ⟨ha, hb, hpairs hpair⟩

/-- What is asked of a list, entry by entry, is the same for two related lists if it is for related
entries. -/
theorem forall₂_iff_of_forall₂ {γ : Type} {S : γ → β → Prop} {T : α → γ → Prop}
    (h : List.Forall₂ R as bs) {cs : List γ} (same : ∀ c ∈ cs, ∀ a b, R a b → (S c b ↔ T a c)) :
    List.Forall₂ S cs bs ↔ List.Forall₂ T as cs := by
  induction h generalizing cs with
  | nil => cases cs <;> simp
  | @cons a b as bs hab _ ih =>
    cases cs with
    | nil => simp
    | cons c cs =>
      obtain ⟨first, others⟩ := List.forall_mem_cons.mp same
      rw [List.forall₂_cons, List.forall₂_cons, first a b hab, ih others]

end

namespace Schema

/-- The schemas that a schema holds. What stands behind a lazy schema is not among them. -/
def children : Schema → List Schema
  | leaf .. => []
  | object _ shape => shape.map (·.2)
  | array _ element => [element]
  | record _ key value => [key, value]
  | tuple _ items => items
  | union _ options => options
  | wrapper _ _ inner => [inner]
  | lazy _ => []
  | pipe _ input output => [input, output]

/-- Schemas whose type has the types of the children as its parameters. -/
def isComposite : Schema → Bool
  | array .. | record .. | tuple .. | union .. | wrapper .. | pipe .. => true
  | leaf .. | object .. | lazy _ => false

theorem element_mem_children (id : NodeId) (element : Schema) :
    element ∈ (array id element).children := List.mem_singleton.mpr rfl

theorem key_mem_children (id : NodeId) (key value : Schema) :
    key ∈ (record id key value).children := List.mem_cons_self

theorem value_mem_children (id : NodeId) (key value : Schema) :
    value ∈ (record id key value).children := List.mem_cons_of_mem _ (List.mem_singleton.mpr rfl)

theorem inner_mem_children (id : NodeId) (w : Wrapper) (inner : Schema) :
    inner ∈ (wrapper id w inner).children := List.mem_singleton.mpr rfl

theorem output_mem_children (id : NodeId) (input output : Schema) :
    output ∈ (pipe id input output).children := List.mem_cons_of_mem _ (List.mem_singleton.mpr rfl)

theorem property_mem_children (id : NodeId) {shape : List (String × Schema)} {name : String}
    {s : Schema} (h : (name, s) ∈ shape) : s ∈ (object id shape).children :=
  List.mem_map.mpr ⟨_, h, rfl⟩

/-- A child is smaller than its schema. -/
theorem sizeOf_lt_of_mem_children {s c : Schema} (h : c ∈ s.children) : sizeOf c < sizeOf s := by
  cases s with
  | leaf id l => cases h
  | lazy id => cases h
  | object id shape =>
    obtain ⟨⟨name, c⟩, hmem, rfl⟩ := List.mem_map.mp h
    have := List.sizeOf_lt_of_mem hmem
    simp only [Prod.mk.sizeOf_spec] at this
    simp only [object.sizeOf_spec]
    omega
  | tuple id items =>
    have : sizeOf c < sizeOf items := List.sizeOf_lt_of_mem h
    simp only [tuple.sizeOf_spec]
    omega
  | union id options =>
    have : sizeOf c < sizeOf options := List.sizeOf_lt_of_mem h
    simp only [union.sizeOf_spec]
    omega
  | array id element =>
    obtain rfl := List.mem_singleton.mp h
    simp only [array.sizeOf_spec]
    omega
  | wrapper id w inner =>
    obtain rfl := List.mem_singleton.mp h
    simp only [wrapper.sizeOf_spec]
    omega
  | record id key value =>
    simp only [children, List.mem_cons, List.not_mem_nil, or_false] at h
    simp only [record.sizeOf_spec]
    rcases h with rfl | rfl <;> omega
  | pipe id input output =>
    simp only [children, List.mem_cons, List.not_mem_nil, or_false] at h
    simp only [pipe.sizeOf_spec]
    rcases h with rfl | rfl <;> omega

/-- What passes from the children of every schema on to the schema holds of all schemas. -/
theorem children_induction {P : Schema → Prop} (h : ∀ s, (∀ c ∈ s.children, P c) → P s)
    (s : Schema) : P s :=
  h s fun c hc =>
    have := sizeOf_lt_of_mem_children hc
    children_induction h c
termination_by sizeOf s

end Schema

namespace Scope

variable (scope : Scope) {skip skip' : NodeId → Prop}

/-- One step: to a child or, unless `skip` holds of a lazy schema, to its target. -/
inductive Leads (skip : NodeId → Prop) : Schema → Schema → Prop
  | child {s c : Schema} : c ∈ s.children → Leads skip s c
  | target {id : NodeId} {s : Schema} : ¬ skip id → scope.target id = .ok s →
    Leads skip (.lazy id) s

abbrev Reaches (skip : NodeId → Prop) : Schema → Schema → Prop :=
  Relation.ReflTransGen (scope.Leads skip)

/-- Every lazy schema that a search from `s` looks behind has a target. -/
def Grounded (skip : NodeId → Prop) (s : Schema) : Prop :=
  ∀ id, scope.Reaches skip s (.lazy id) → ¬ skip id → ∃ target, scope.target id = .ok target

/-- All schemas that a search from a schema finds, itself included. -/
abbrev Contains (root s : Schema) : Prop :=
  scope.Reaches (fun _ => False) root s

/-- One step that does not lead into an object. -/
inductive LeadsBeside : Schema → Schema → Prop
  | child {s c : Schema} : s.isComposite = true → c ∈ s.children → LeadsBeside s c
  | target {id : NodeId} {s : Schema} : scope.target id = .ok s → LeadsBeside (.lazy id) s

/-- Every cycle passes through an object. -/
def Guarded (root : Schema) : Prop :=
  ∀ id, scope.Contains root (.lazy id) →
    ¬ Relation.TransGen scope.LeadsBeside (.lazy id) (.lazy id)

variable {scope}

theorem Contains.child {root s c : Schema} (h : scope.Contains root s) (hc : c ∈ s.children) :
    scope.Contains root c :=
  h.tail (.child hc)

theorem Contains.target {root s : Schema} {id : NodeId} (h : scope.Contains root (.lazy id))
    (hs : scope.target id = .ok s) : scope.Contains root s :=
  h.tail (.target (fun h => h) hs)

theorem LeadsBeside.contains {s t : Schema} (h : scope.LeadsBeside s t) : scope.Contains s t := by
  cases h with
  | child _ hc => exact .single (.child hc)
  | target htarget => exact .single (.target (fun h => h) htarget)

theorem Guarded.of_contains {root s : Schema} (h : scope.Guarded root)
    (hs : scope.Contains root s) : scope.Guarded s :=
  fun id hid => h id (hs.trans hid)

theorem Leads.anti {s t : Schema} (h : scope.Leads skip' s t) (sub : ∀ id, skip id → skip' id) :
    scope.Leads skip s t := by
  cases h with
  | child h => exact .child h
  | target hskip h => exact .target (fun hs => hskip (sub _ hs)) h

/-- The less is skipped, the more is reached. -/
theorem Reaches.anti {s t : Schema} (h : scope.Reaches skip' s t)
    (sub : ∀ id, skip id → skip' id) : scope.Reaches skip s t :=
  Relation.ReflTransGen.mono (fun _ _ h => h.anti sub) _ _ h

/-- A search does not leave what it cannot leave in one step. -/
theorem Reaches.closed {P : Schema → Prop} {s t : Schema} (h : scope.Reaches skip s t)
    (closed : ∀ s t, P s → scope.Leads skip s t → P t) (hs : P s) : P t := by
  induction h with
  | refl => exact hs
  | tail _ hlead ih => exact closed _ _ ih hlead

namespace Grounded

theorem mono {s : Schema} (h : scope.Grounded skip s) (sub : ∀ id, skip id → skip' id) :
    scope.Grounded skip' s := fun id hreach hskip =>
  h id (hreach.anti sub) fun hs => hskip (sub id hs)

theorem step {s t : Schema} (h : scope.Grounded skip s) (hst : scope.Leads skip s t) :
    scope.Grounded skip t := fun id hreach =>
  h id (.head hst hreach)

theorem of_reaches {s t : Schema} (h : scope.Grounded skip s) (hst : scope.Reaches skip s t) :
    scope.Grounded skip t := fun id hreach =>
  h id (hst.trans hreach)

theorem lazy_iff {id : NodeId} :
    scope.Grounded skip (.lazy id) ↔
      (¬ skip id → ∃ s, scope.target id = .ok s ∧ scope.Grounded skip s) := by
  constructor
  · intro h hskip
    obtain ⟨s, hs⟩ := h id .refl hskip
    exact ⟨s, hs, h.step (.target hskip hs)⟩
  · intro h id' hreach hskip'
    rcases Relation.ReflTransGen.cases_head hreach with heq | ⟨s, hlead, hreach⟩
    · cases heq
      obtain ⟨s, hs, _⟩ := h hskip'
      exact ⟨s, hs⟩
    · cases hlead with
      | child hmem => cases hmem
      | target hskip hs =>
        obtain ⟨s', hs', hground⟩ := h hskip
        rw [hs] at hs'
        cases hs'
        exact hground id' hreach hskip'

/-- Apart from lazy schemas, a schema is grounded if its children are. -/
theorem of_children {s : Schema} (hs : s.lazyId? = none)
    (h : ∀ c ∈ s.children, scope.Grounded skip c) : scope.Grounded skip s := by
  intro id hreach
  rcases Relation.ReflTransGen.cases_head hreach with rfl | ⟨c, hlead, hreach⟩
  · cases hs
  · cases hlead with
    | child hmem => exact h c hmem id hreach
    | target => cases hs

/-- What a search cannot leave is grounded if its lazy schemas have targets. -/
theorem of_closed {P : Schema → Prop} (closed : ∀ s t, P s → scope.Leads skip s t → P t)
    (has : ∀ id, P (.lazy id) → ∃ target, scope.target id = .ok target) {s : Schema} (hs : P s) :
    scope.Grounded skip s := by
  intro id hreach _
  exact has id (hreach.closed closed hs)

/-- A search may as well look behind lazy schemas whose targets are grounded. -/
theorem of_insert (h : ∀ id, ¬ skip id → skip' id →
      ∃ s, scope.target id = .ok s ∧ scope.Grounded skip' s)
    {s : Schema} (hs : scope.Grounded skip' s) : scope.Grounded skip s := by
  intro id hreach new
  induction hreach using Relation.ReflTransGen.head_induction_on with
  | refl =>
    by_cases hskip : skip' id
    · obtain ⟨t, ht, _⟩ := h id new hskip
      exact ⟨t, ht⟩
    · exact hs id .refl hskip
  | head hlead _ ih =>
    cases hlead with
    | child hmem => exact ih (hs.step (.child hmem))
    | @target j t hj ht =>
      by_cases hskip : skip' j
      · obtain ⟨t', ht', hground⟩ := h j hj hskip
        obtain rfl := Except.ok.inj (ht.symm.trans ht')
        exact ih hground
      · exact ih (hs.step (.target hskip ht))

end Grounded

end Scope

end Schemata
