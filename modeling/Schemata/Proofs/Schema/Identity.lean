import Schemata.Proofs.Schema.Graph
import Schemata.Schema.Blueprint

/-!
# Identities of schemas

Every schema that is made gets an identity that no other schema has. What was made before stays as
it was: it keeps its identity, and lazy schemas keep their targets.
-/

namespace Schemata

/-- The schemas by their identities. -/
abbrev Identities := NodeId → Option Schema

namespace Identities

/-- The schema is the one with its identity. -/
def Has (own : Identities) (s : Schema) : Prop :=
  own s.id = some s

/-- An item that is a schema is the one with its identity. -/
def HasItem (own : Identities) : Item → Prop
  | .schema s => own.Has s
  | .value _ => True

def Le (own own' : Identities) : Prop :=
  ∀ id s, own id = some s → own' id = some s

variable {own own' own'' : Identities}

theorem Le.refl (own : Identities) : own.Le own :=
  fun _ _ h => h

theorem Le.trans (h : own.Le own') (h' : own'.Le own'') : own.Le own'' :=
  fun id s hs => h' id s (h id s hs)

theorem Le.has (h : own.Le own') {s : Schema} (hs : own.Has s) : own'.Has s :=
  h s.id s hs

theorem Le.hasItem (h : own.Le own') {item : Item} (hi : own.HasItem item) : own'.HasItem item := by
  cases item with
  | schema s => exact h.has hi
  | value v => exact hi

/-- A schema is determined by its identity. -/
theorem Has.eq {s t : Schema} (hs : own.Has s) (ht : own.Has t) (h : s.id = t.id) : s = t := by
  unfold Has at hs ht
  rw [h, ht] at hs
  exact (Option.some.inj hs).symm

end Identities

/-- The schemas of a workshop have identities of their own. -/
structure Workshop.Identified (w : Workshop) (own : Identities) : Prop where
  fresh {id : NodeId} {s : Schema} : own id = some s → id < w.nextId
  child {s c : Schema} : own.Has s → c ∈ s.children → own.Has c
  defs {name : String} {s : Schema} : (name, .schema s) ∈ w.scope.defs → own.Has s
  getters {id : NodeId} {getter : Getter} : (id, getter) ∈ w.scope.getters → own.Has (.lazy id)

/-- Further schemas were made, and nothing else has happened. -/
structure Workshop.Grows (w : Workshop) (own : Identities) (w' : Workshop) (own' : Identities) :
    Prop where
  identified : w'.Identified own'
  le : own.Le own'
  defs : w'.scope.defs = w.scope.defs
  getters : ∃ new, w'.scope.getters = new ++ w.scope.getters ∧ ∀ entry ∈ new, w.nextId ≤ entry.1
  nextId : w.nextId ≤ w'.nextId

/-- A target is what is defined under some name. -/
theorem Scope.exists_def_of_target {scope : Scope} {id : NodeId} {s : Schema}
    (h : scope.target id = .ok s) : ∃ name, (name, .schema s) ∈ scope.defs := by
  unfold target at h
  split at h
  · cases h
  · next getter _ =>
    cases getter with
    | fails text => cases h
    | value v => cases h
    | named name =>
      simp only [run] at h
      cases found : scope.lookup? name with
      | none =>
        rw [found] at h
        cases h
      | some item =>
        rw [found] at h
        cases item with
        | value v => cases h
        | schema t =>
          obtain rfl : t = s := Except.ok.inj h
          exact ⟨name, mem_of_lookup found⟩

namespace Workshop

variable {w w' w'' : Workshop} {own own' own'' : Identities} {root s : Schema}

theorem Identified.empty : Workshop.empty.Identified fun _ => none where
  fresh h := nomatch h
  child h := nomatch h
  defs h := (List.not_mem_nil h).elim
  getters h := (List.not_mem_nil h).elim

/-- The graph of a schema with an identity of its own consists of such schemas. -/
theorem Identified.contains (h : w.Identified own) (hs : w.scope.Contains root s)
    (hroot : own.Has root) : own.Has s := by
  refine hs.closed (fun s t hs leads => ?_) hroot
  cases leads with
  | child hc => exact h.child hs hc
  | target _ found =>
    obtain ⟨name, hname⟩ := Scope.exists_def_of_target found
    exact h.defs hname

theorem Grows.refl (h : w.Identified own) : w.Grows own w own where
  identified := h
  le := .refl own
  defs := rfl
  getters := ⟨[], rfl, fun _ h => (List.not_mem_nil h).elim⟩
  nextId := Nat.le_refl _

theorem Grows.trans (h : w.Grows own w' own') (h' : w'.Grows own' w'' own'') :
    w.Grows own w'' own'' where
  identified := h'.identified
  le := h.le.trans h'.le
  defs := h'.defs.trans h.defs
  getters := by
    obtain ⟨new, hnew, hids⟩ := h.getters
    obtain ⟨new', hnew', hids'⟩ := h'.getters
    refine ⟨new' ++ new, by rw [hnew', hnew, List.append_assoc], fun entry hentry => ?_⟩
    rcases List.mem_append.mp hentry with hentry | hentry
    · exact Nat.le_trans h.nextId (hids' entry hentry)
    · exact hids entry hentry
  nextId := Nat.le_trans h.nextId h'.nextId

/-- Lazy schemas keep their targets. -/
theorem Grows.target (h : w.Grows own w' own') (identified : w.Identified own) {id : NodeId}
    (hs : w.scope.target id = .ok s) : w'.scope.target id = .ok s := by
  obtain ⟨new, hnew, fresh⟩ := h.getters
  unfold Scope.target at hs ⊢
  cases found : w.scope.getters.lookup id with
  | none =>
    rw [found] at hs
    cases hs
  | some getter =>
    have old : id < w.nextId := identified.fresh (identified.getters (mem_of_lookup found))
    have absent : new.lookup id = none := by
      rw [List.lookup_eq_none_iff]
      intro entry hentry
      rw [bne_iff_ne]
      exact Nat.ne_of_lt (Nat.lt_of_lt_of_le old (fresh entry hentry))
    have run : w'.scope.run getter = w.scope.run getter := by
      cases getter <;> simp only [Scope.run, Scope.lookup?, h.defs]
    rw [hnew, List.lookup_append, absent, Option.none_or, found]
    rw [found] at hs
    simp only [run]
    exact hs

end Workshop

/-! ## Making -/

namespace Making

variable {α β : Type} {m : Making α} {f : α → Making β} {w : Workshop} {own : Identities}
  {Q : Identities → α → Prop} {Q' : Identities → β → Prop}

/-- What is made has an identity of its own, or is put together from what has. -/
def Gives (m : Making α) (Q : Identities → α → Prop) (w : Workshop) (own : Identities) : Prop :=
  ∀ a w', m w = .ok (a, w') → ∃ own', w.Grows own w' own' ∧ Q own' a

namespace Gives

theorem pure {a : α} (h : w.Identified own) (ha : Q own a) :
    Gives (Pure.pure a : Making α) Q w own := by
  rintro _ _ ⟨⟩
  exact ⟨own, .refl h, ha⟩

theorem fail (failure : Failure) : Gives (Making.fail failure : Making α) Q w own := by
  rintro _ _ ⟨⟩

theorem lift {outcome : Except Failure α} (h : w.Identified own)
    (ha : ∀ a, outcome = .ok a → Q own a) : Gives (Making.lift outcome) Q w own := by
  cases outcome with
  | error failure => rintro _ _ ⟨⟩
  | ok a =>
    rintro _ _ ⟨⟩
    exact ⟨own, .refl h, ha a rfl⟩

theorem bind (hm : Gives m Q w own)
    (hf : ∀ a w' own', w.Grows own w' own' → Q own' a → Gives (f a) Q' w' own') :
    Gives (m >>= f) Q' w own := by
  intro b w'' run
  cases first : m w with
  | error failure =>
    simp only [Bind.bind, StateT.bind, first] at run
    cases run
  | ok made =>
    obtain ⟨a, w'⟩ := made
    simp only [Bind.bind, StateT.bind, first] at run
    obtain ⟨own', grows, ha⟩ := hm a w' first
    obtain ⟨own'', grows', hb⟩ := hf a w' own' grows ha b w'' run
    exact ⟨own'', grows.trans grows', hb⟩

theorem mapM {g : α → Making β} {l : List α} (h : w.Identified own)
    (mono : ∀ own own' b, own.Le own' → Q' own b → Q' own' b)
    (each : ∀ a ∈ l, ∀ w' own', w.Grows own w' own' → Gives (g a) Q' w' own') :
    Gives (l.mapM g) (fun own' bs => ∀ b ∈ bs, Q' own' b) w own := by
  induction l generalizing w own with
  | nil => exact .pure h fun _ hb => (List.not_mem_nil hb).elim
  | cons a l ih =>
    rw [List.mapM_cons]
    refine (each a List.mem_cons_self w own (.refl h)).bind fun b w₁ own₁ grows hb => ?_
    refine (ih grows.identified fun a ha w' own' grows' =>
      each a (List.mem_cons_of_mem _ ha) w' own' (grows.trans grows')).bind
        fun bs w₂ own₂ grows₂ hbs => ?_
    refine .pure grows₂.identified fun b' hb' => ?_
    rcases List.mem_cons.mp hb' with rfl | hb'
    · exact mono _ _ _ grows₂.le hb
    · exact hbs b' hb'

end Gives

/-- A new schema whose children have identities of their own has one, too. -/
theorem register_gives (make : NodeId → Schema) (h : w.Identified own) (label : String)
    (self : ∀ id, (make id).id = id) (children : ∀ id, ∀ c ∈ (make id).children, own.Has c) :
    Gives (register label make) (fun own' s => own'.Has s) w own := by
  rintro _ _ ⟨⟩
  have new : own w.nextId = none := by
    cases taken : own w.nextId with
    | none => rfl
    | some s => exact absurd (h.fresh taken) (Nat.lt_irrefl _)
  -- The identity that is given out was free, so whatever has one keeps it.
  let own' : Identities := fun id => if id = w.nextId then some (make id) else own id
  have le : own.Le own' := by
    intro id s hs
    have old : id ≠ w.nextId := Nat.ne_of_lt (h.fresh hs)
    simp only [own', old, if_false]
    exact hs
  have made : own'.Has (make w.nextId) := by simp [own', Identities.Has, self]
  refine ⟨own', ⟨⟨?_, ?_, ?_, ?_⟩, le, rfl, ⟨[], rfl, by simp⟩, Nat.le_succ _⟩, made⟩
  · intro id s hs
    by_cases hid : id = w.nextId
    · exact hid ▸ Nat.lt_succ_self _
    · simp only [own', hid, if_false] at hs
      exact Nat.lt_succ_of_lt (h.fresh hs)
  · intro s c hs hc
    by_cases hid : s.id = w.nextId
    · simp only [Identities.Has, own', hid, if_true] at hs
      obtain rfl := Option.some.inj hs
      exact le.has (children _ c hc)
    · simp only [Identities.Has, own', hid, if_false] at hs
      exact le.has (h.child hs hc)
  · exact fun hdef => le.has (h.defs hdef)
  · exact fun hgetter => le.has (h.getters hgetter)

theorem child_gives {item : Item} (h : w.Identified own) (owner : SchemaClass)
    (hi : own.HasItem item) : Gives (child owner item) (fun own' s => own'.Has s) w own := by
  refine .lift h fun s hs => ?_
  cases item with
  | value v => cases hs
  | schema t =>
    obtain rfl : t = s := Except.ok.inj hs
    exact hi

theorem receiver_gives {item : Item} (h : w.Identified own) (method : String)
    (hi : own.HasItem item) : Gives (receiver method item) (fun own' s => own'.Has s) w own := by
  refine .lift h fun s hs => ?_
  cases item with
  | value v => cases hs
  | schema t =>
    obtain rfl : t = s := Except.ok.inj hs
    exact hi

theorem children_gives {items : List Item} (h : w.Identified own) (owner : SchemaClass)
    (hi : ∀ item ∈ items, own.HasItem item) :
    Gives (children owner items) (fun own' ss => ∀ s ∈ ss, own'.Has s) w own :=
  .mapM h (fun _ _ _ le hs => le.has hs) fun item hitem _ _ grows =>
    child_gives grows.identified owner (grows.le.hasItem (hi item hitem))

theorem relabel_gives (h : w.Identified own) (label : String) (s : Schema) :
    Gives (relabel label s) (fun _ _ => True) w own := by
  rintro _ _ ⟨⟩
  exact ⟨own, ⟨⟨h.fresh, h.child, h.defs, h.getters⟩, .refl own, rfl, ⟨[], rfl, by simp⟩,
    Nat.le_refl _⟩, trivial⟩

end Making

/-! ## Blueprints -/

namespace Blueprint

open Making

variable {w : Workshop} {own : Identities}

/-- The items that are collected under keys. -/
def HasEntries (own : Identities) (entries : List (Value × Item)) : Prop :=
  ∀ entry ∈ entries, own.HasItem entry.2

theorem HasEntries.setChild {entries : List (Value × Item)} (h : HasEntries own entries)
    (key : Value) {item : Item} (hi : own.HasItem item) :
    HasEntries own (setChild key item entries) := by
  induction entries with
  | nil =>
    intro entry hentry
    obtain rfl := List.mem_singleton.mp hentry
    exact hi
  | cons first rest ih =>
    obtain ⟨k, i⟩ := first
    have tail := ih fun entry hentry => h entry (List.mem_cons_of_mem _ hentry)
    unfold Blueprint.setChild
    split
    · intro entry hentry
      rcases List.mem_cons.mp hentry with rfl | hentry
      · exact hi
      · exact h entry (List.mem_cons_of_mem _ hentry)
    · intro entry hentry
      rcases List.mem_cons.mp hentry with rfl | hentry
      · exact h (k, i) List.mem_cons_self
      · exact tail entry hentry

theorem shapeOf_gives {entries : List (Value × Item)} (h : w.Identified own)
    (hi : HasEntries own entries) :
    Gives (shapeOf entries) (fun own' shape => ∀ property ∈ shape, own'.Has property.2) w own := by
  refine .mapM h (fun _ _ _ le hs => le.has hs) fun entry hentry w' own' grows => ?_
  obtain ⟨key, item⟩ := entry
  cases key with
  | str name =>
    refine (child_gives grows.identified .object (grows.le.hasItem (hi _ hentry))).bind
      fun s w₂ own₂ grows₂ hs => .pure grows₂.identified hs
  | _ => exact .fail _

/-- A lazy schema and its getter are made together. -/
theorem makeLazy_gives (label : String) (getter : Getter) (h : w.Identified own) :
    Gives (make label (.lazy getter)) Identities.HasItem w own := by
  rintro _ _ ⟨⟩
  obtain ⟨own', grows, made⟩ :=
    register_gives .lazy h label (fun _ => rfl) (fun _ _ hc => nomatch hc) _ _ rfl
  refine ⟨own', ⟨⟨grows.identified.fresh, grows.identified.child, grows.identified.defs, ?_⟩,
    grows.le, rfl, ⟨[(w.nextId, getter)], rfl, by simp⟩, grows.nextId⟩, made⟩
  intro id g hg
  rcases List.mem_cons.mp hg with heq | hg
  · cases heq
    exact made
  · exact grows.identified.getters hg

theorem registered_gives (make : NodeId → Schema) (h : w.Identified own) (label : String)
    (self : ∀ id, (make id).id = id) (children : ∀ id, ∀ c ∈ (make id).children, own.Has c) :
    Gives (do return .schema (← register label make)) Identities.HasItem w own :=
  (register_gives make h label self children).bind fun _ _ _ grows hs => .pure grows.identified hs

theorem wrapTimes_gives (label : String) (wrappers : List Wrapper) (count : Nat) {base : Item}
    (h : w.Identified own) (hbase : own.HasItem base) :
    Gives (wrapTimes label wrappers count base) Identities.HasItem w own := by
  unfold wrapTimes
  generalize List.range count = positions
  induction positions generalizing w own base with
  | nil => exact .pure h hbase
  | cons i rest ih =>
    rw [List.foldlM_cons]
    refine Gives.bind (Q := Identities.HasItem) ?_ fun item w₁ own₁ grows hi =>
      ih grows.identified hi
    split
    · exact .pure h hbase
    · next wrapper _ =>
      refine (receiver_gives h _ hbase).bind fun inner w₁ own₁ grows hinner => ?_
      refine registered_gives _ grows.identified _ (fun _ => rfl) fun _ c hc => ?_
      obtain rfl := List.mem_singleton.mp hc
      exact hinner

mutual

/-- What a blueprint describes gets identities of its own. -/
theorem make_gives : ∀ (b : Blueprint) (label : String) {w : Workshop} {own : Identities},
    w.Identified own → Gives (b.make label) Identities.HasItem w own
  | .leaf l, label, w, own, h =>
    registered_gives _ h label (fun _ => rfl) fun _ _ hc => nomatch hc
  | .enum values, label, w, own, h => by
    unfold make
    split
    · exact .fail _
    · exact .fail _
    · exact registered_gives _ h label (fun _ => rfl) fun _ _ hc => nomatch hc
  | .object shape, label, w, own, h => by
    unfold make
    refine (makeShape_gives shape _ h fun _ h => (List.not_mem_nil h).elim).bind
      fun entries w₁ own₁ grows₁ hentries => ?_
    refine (shapeOf_gives grows₁.identified hentries).bind fun shape w₂ own₂ grows₂ hshape => ?_
    refine registered_gives _ grows₂.identified label (fun _ => rfl) fun _ c hc => ?_
    obtain ⟨property, hproperty, rfl⟩ := List.mem_map.mp hc
    exact hshape property hproperty
  | .array element, label, w, own, h => by
    unfold make
    refine (make_gives element _ h).bind fun item w₁ own₁ grows₁ hi => ?_
    refine (child_gives grows₁.identified .array hi).bind fun s w₂ own₂ grows₂ hs => ?_
    refine registered_gives _ grows₂.identified label (fun _ => rfl) fun _ c hc => ?_
    obtain rfl := List.mem_singleton.mp hc
    exact hs
  | .record k v, label, w, own, h => by
    unfold make
    -- What was made first is carried along while the rest is made.
    refine (make_gives k _ h).bind fun key w₁ own₁ grows₁ hkey => ?_
    refine (make_gives v _ grows₁.identified).bind fun content w₂ own₂ grows₂ hcontent => ?_
    refine (child_gives grows₂.identified .record (grows₂.le.hasItem hkey)).bind
      fun key w₃ own₃ grows₃ hkey => ?_
    refine (child_gives grows₃.identified .record (grows₃.le.hasItem hcontent)).bind
      fun content w₄ own₄ grows₄ hcontent => ?_
    refine registered_gives _ grows₄.identified label (fun _ => rfl) fun _ c hc => ?_
    rcases (List.mem_cons.mp hc).imp_right List.mem_singleton.mp with rfl | rfl
    · exact grows₄.le.has hkey
    · exact hcontent
  | .tuple items, label, w, own, h => by
    unfold make
    refine (makeAll_gives items _ 0 h).bind fun items w₁ own₁ grows₁ hitems => ?_
    refine (children_gives grows₁.identified .tuple hitems).bind fun ss w₂ own₂ grows₂ hss => ?_
    exact registered_gives _ grows₂.identified label (fun _ => rfl) fun _ c hc => hss c hc
  | .union options, label, w, own, h => by
    unfold make
    refine (makeAll_gives options _ 0 h).bind fun items w₁ own₁ grows₁ hitems => ?_
    split
    · exact .fail _
    · refine (children_gives grows₁.identified .union hitems).bind fun ss w₂ own₂ grows₂ hss => ?_
      exact registered_gives _ grows₂.identified label (fun _ => rfl) fun _ c hc => hss c hc
  | .wrapper _ inner, label, w, own, h => by
    unfold make
    refine (make_gives inner _ h).bind fun item w₁ own₁ grows₁ hi => ?_
    refine (child_gives grows₁.identified _ hi).bind fun s w₂ own₂ grows₂ hs => ?_
    refine registered_gives _ grows₂.identified label (fun _ => rfl) fun _ c hc => ?_
    obtain rfl := List.mem_singleton.mp hc
    exact hs
  | .pipe i o, label, w, own, h => by
    unfold make
    refine (make_gives i _ h).bind fun input w₁ own₁ grows₁ hinput => ?_
    refine (make_gives o _ grows₁.identified).bind fun output w₂ own₂ grows₂ houtput => ?_
    refine (child_gives grows₂.identified .pipe (grows₂.le.hasItem hinput)).bind
      fun input w₃ own₃ grows₃ hinput => ?_
    refine (child_gives grows₃.identified .pipe (grows₃.le.hasItem houtput)).bind
      fun output w₄ own₄ grows₄ houtput => ?_
    refine registered_gives _ grows₄.identified label (fun _ => rfl) fun _ c hc => ?_
    rcases (List.mem_cons.mp hc).imp_right List.mem_singleton.mp with rfl | rfl
    · exact grows₄.le.has hinput
    · exact houtput
  | .lazy getter, label, w, own, h => makeLazy_gives label getter h
  | .named name, label, w, own, h => by
    rintro _ _ ⟨⟩
    refine ⟨own, .refl h, ?_⟩
    cases found : w.scope.lookup? name with
    | none => trivial
    | some item =>
      cases item with
      | value v => trivial
      | schema s => exact h.defs (mem_of_lookup found)
  | .value v, label, w, own, h => .pure h trivial
  | .chain base methods, label, w, own, h => by
    unfold make
    refine (make_gives base _ h).bind fun item w₁ own₁ grows₁ hi => ?_
    refine (applyMethods_gives methods _ 0 grows₁.identified hi).bind
      fun made w₂ own₂ grows₂ hmade => ?_
    cases made with
    | value v => exact .pure grows₂.identified trivial
    | schema s =>
      exact (relabel_gives grows₂.identified label s).bind fun _ w₃ own₃ grows₃ _ =>
        .pure grows₃.identified (grows₃.le.has hmade)
  | .wrapped base count wrappers, label, w, own, h => by
    unfold make
    exact (make_gives base _ h).bind fun item w₁ own₁ grows₁ hi =>
      wrapTimes_gives label wrappers count grows₁.identified hi

theorem makeAll_gives : ∀ (bs : List Blueprint) (label : String) (start : Nat) {w : Workshop}
    {own : Identities}, w.Identified own →
    Gives (makeAll label start bs) (fun own' items => ∀ item ∈ items, own'.HasItem item) w own
  | [], label, start, w, own, h => .pure h fun _ hi => (List.not_mem_nil hi).elim
  | b :: rest, label, start, w, own, h => by
    unfold makeAll
    refine (make_gives b _ h).bind fun item w₁ own₁ grows₁ hi => ?_
    refine (makeAll_gives rest _ _ grows₁.identified).bind fun items w₂ own₂ grows₂ hitems => ?_
    refine .pure grows₂.identified fun i hmem => ?_
    rcases List.mem_cons.mp hmem with rfl | hmem
    · exact grows₂.le.hasItem hi
    · exact hitems i hmem

theorem makeShape_gives : ∀ (shape : List (Value × Blueprint)) (label : String)
    {made : List (Value × Item)} {w : Workshop} {own : Identities}, w.Identified own →
    HasEntries own made → Gives (makeShape label made shape) HasEntries w own
  | [], label, made, w, own, h, hmade => .pure h hmade
  | (key, b) :: rest, label, made, w, own, h, hmade => by
    unfold makeShape
    refine (make_gives b _ h).bind fun item w₁ own₁ grows₁ hi => ?_
    split
    · exact .fail _
    · have kept : HasEntries own₁ made := fun entry hentry => grows₁.le.hasItem (hmade entry hentry)
      exact makeShape_gives rest label grows₁.identified (kept.setChild key hi)

theorem applyMethods_gives : ∀ (methods : List (Method Blueprint)) (label : String) (start : Nat)
    {item : Item} {w : Workshop} {own : Identities}, w.Identified own → own.HasItem item →
    Gives (applyMethods label start item methods) Identities.HasItem w own
  | [], label, start, item, w, own, h, hi => .pure h hi
  | .wrapper _ :: rest, label, start, item, w, own, h, hi
  | .array :: rest, label, start, item, w, own, h, hi => by
    unfold applyMethods
    refine (receiver_gives h _ hi).bind fun self w₁ own₁ grows₁ hself => ?_
    refine (register_gives _ grows₁.identified _ (fun _ => rfl) fun _ c hc => ?_).bind
      fun made w₂ own₂ grows₂ hmade => applyMethods_gives rest label _ grows₂.identified hmade
    obtain rfl := List.mem_singleton.mp hc
    exact hself
  | .pipe o :: rest, label, start, item, w, own, h, hi => by
    unfold applyMethods
    refine (receiver_gives h _ hi).bind fun self w₁ own₁ grows₁ hself => ?_
    refine (make_gives o _ grows₁.identified).bind fun output w₂ own₂ grows₂ houtput => ?_
    refine (child_gives grows₂.identified .pipe houtput).bind
      fun output w₃ own₃ grows₃ houtput => ?_
    refine (register_gives _ grows₃.identified _ (fun _ => rfl) fun _ c hc => ?_).bind
      fun made w₄ own₄ grows₄ hmade => applyMethods_gives rest label _ grows₄.identified hmade
    rcases (List.mem_cons.mp hc).imp_right List.mem_singleton.mp with rfl | rfl
    · exact (grows₂.trans grows₃).le.has hself
    · exact houtput
  | .transform function :: rest, label, start, item, w, own, h, hi => by
    unfold applyMethods
    refine (receiver_gives h _ hi).bind fun self w₁ own₁ grows₁ hself => ?_
    -- A transform registers two schemas: the one for the function and the pipe around both.
    refine (register_gives _ grows₁.identified _ (fun _ => rfl) fun _ _ hc =>
      (List.not_mem_nil hc).elim).bind
      fun output w₂ own₂ grows₂ houtput => ?_
    refine (register_gives _ grows₂.identified _ (fun _ => rfl) fun _ c hc => ?_).bind
      fun made w₃ own₃ grows₃ hmade => applyMethods_gives rest label _ grows₃.identified hmade
    rcases (List.mem_cons.mp hc).imp_right List.mem_singleton.mp with rfl | rfl
    · exact grows₂.le.has hself
    · exact houtput

end

/-- A definition does not share its identity. -/
theorem defineAll_identified {name : String} {b : Blueprint} {w' : Workshop} {u : Unit}
    (h : w.Identified own) (defined : defineAll [(name, b)] w = .ok (u, w')) :
    ∃ own', w'.Identified own' := by
  cases made : make ("defs/" ++ name) b w with
  | error failure =>
    simp only [defineAll, Bind.bind, StateT.bind, made] at defined
    cases defined
  | ok found =>
    obtain ⟨item, w₁⟩ := found
    obtain ⟨own', grows, hitem⟩ := make_gives b _ h item w₁ made
    simp only [defineAll, Bind.bind, StateT.bind, made] at defined
    cases defined
    refine ⟨own', grows.identified.fresh, grows.identified.child, ?_, grows.identified.getters⟩
    intro name' s hs
    rcases List.mem_cons.mp hs with heq | hs
    · cases heq
      exact hitem
    · exact grows.identified.defs hs

end Blueprint

end Schemata
