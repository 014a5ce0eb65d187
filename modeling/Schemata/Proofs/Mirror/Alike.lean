import Schemata.Proofs.Derivation.Run
import Schemata.Proofs.Mirror.View
import Schemata.Proofs.Traversal.Lockstep

/-!
# Types that are alike

Two derived types are alike if they differ only in the names of their references and in the numbers of
their shapes. If names that correspond stand for types that are alike, or for nothing in both, then
every path leads through both types in the same way.
-/

namespace Schemata

mutual

/-- Derived types that differ only in names, which `ρ` pairs up, and in shapes. -/
inductive Alike (ρ : String → String → Prop) : StaticType → StaticType → Prop
  | leaf {t : StaticType} : (∃ l : Leaf, t = l.staticType) → Alike ρ t t
  | object {k k' : Nat} {name name' : String} {fields fields' : List (String × StaticType)}
      {optional optional' : List String} :
    fields.map (·.1) = fields'.map (·.1) → AlikeAll ρ (fields.map (·.2)) (fields'.map (·.2)) →
    Alike ρ (.schema .object (some [.shape (.derived k) name fields optional]))
      (.schema .object (some [.shape (.derived k') name' fields' optional']))
  | composite {c : SchemaClass} {ts us : List StaticType} :
    c ≠ .object → AlikeAll ρ ts us → Alike ρ (.schema c (some ts)) (.schema c (some us))
  | reference {n m : String} :
    ρ n m → Alike ρ (.schema .lazy (some [.reference n])) (.schema .lazy (some [.reference m]))

/-- Types that are alike one by one. -/
inductive AlikeAll (ρ : String → String → Prop) : List StaticType → List StaticType → Prop
  | nil : AlikeAll ρ [] []
  | cons {t u : StaticType} {ts us : List StaticType} :
    Alike ρ t u → AlikeAll ρ ts us → AlikeAll ρ (t :: ts) (u :: us)

end

section

variable {ρ ρ' : String → String → Prop}

theorem AlikeAll.forall₂ {ts us : List StaticType} (h : AlikeAll ρ ts us) :
    List.Forall₂ (Alike ρ) ts us := by
  induction ts generalizing us with
  | nil => cases h; exact .nil
  | cons t ts ih =>
    cases h with
    | cons h hs => exact .cons h (ih hs)

mutual

theorem Alike.mono (hρ : ∀ n m, ρ n m → ρ' n m) {t u : StaticType} : Alike ρ t u → Alike ρ' t u
  | .leaf h => .leaf h
  | .object hnames hfields => .object hnames (AlikeAll.mono hρ hfields)
  | .composite hc hts => .composite hc (AlikeAll.mono hρ hts)
  | .reference h => .reference (hρ _ _ h)

theorem AlikeAll.mono (hρ : ∀ n m, ρ n m → ρ' n m) {ts us : List StaticType} :
    AlikeAll ρ ts us → AlikeAll ρ' ts us
  | .nil => .nil
  | .cons h hs => .cons (Alike.mono hρ h) (AlikeAll.mono hρ hs)

end

theorem Alike.schemaClass? {t u : StaticType} (h : Alike ρ t u) :
    t.schemaClass? = u.schemaClass? := by
  cases h <;> rfl

theorem Alike.not_isReference {t u : StaticType} (h : Alike ρ t u) :
    t.isReference = false ∧ u.isReference = false := by
  cases h with
  | leaf hl =>
    obtain ⟨l, rfl⟩ := hl
    cases l <;> exact ⟨rfl, rfl⟩
  | _ => exact ⟨rfl, rfl⟩

/-! ## Descriptions -/

/-- A composite schema is no object. -/
theorem Schema.schemaClass_ne_object {s : Schema} (h : s.isComposite = true) :
    s.schemaClass ≠ .object := by
  cases s with
  | wrapper _ w => cases w <;> simp [Schema.schemaClass, Wrapper.schemaClass]
  | leaf | object | lazy => cases h
  | _ => simp [Schema.schemaClass]

section

variable {o o' : Owners} {refers refers' : NodeId → String → Prop}

mutual

/-- Two descriptions of a schema are alike, if the names that refer to a lazy schema correspond. -/
theorem Describes.alike (pairs : ∀ id n m, refers id n → refers' id m → ρ n m)
    {outer outer' : NodeId → String → Prop} (pairs' : ∀ id n m, outer id n → outer' id m → ρ n m)
    {s : Schema} {t u : StaticType} :
    Describes (.derived o refers fun _ _ => False) outer s t →
    Describes (.derived o' refers' fun _ _ => False) outer' s u → Alike ρ t u
  | .leaf hl, h' => by
    cases h' with
    | leaf hl' =>
      obtain rfl : _ = Leaf.staticType _ := hl
      obtain rfl : _ = Leaf.staticType _ := hl'
      exact .leaf ⟨_, rfl⟩
    | composite hs => cases hs
  | .object hshape hnames hfields, h' => by
    cases h' with
    | object hshape' hnames' hfields' =>
      have fields := DescribesAll.alike pairs pairs hfields hfields'
      obtain ⟨k, rfl, _⟩ := hshape
      obtain ⟨k', rfl, _⟩ := hshape'
      exact .object (hnames.symm.trans hnames') fields
    | composite hs => cases hs
  | .composite hs hts, h' => by
    cases h' with
    | composite _ hts' =>
      exact .composite (Schema.schemaClass_ne_object hs) (DescribesAll.alike pairs pairs' hts hts')
    | leaf | object | reference | target => cases hs
  | .reference hn, h' => by
    -- Derived types do not open the targets of lazy schemas, so both refer to the schema by name.
    cases h' with
    | reference hm => exact .reference (pairs' _ _ _ hn hm)
    | composite hs => cases hs
    | target hopens => exact hopens.elim
  | .target hopens _, _ => hopens.elim

theorem DescribesAll.alike (pairs : ∀ id n m, refers id n → refers' id m → ρ n m)
    {outer outer' : NodeId → String → Prop} (pairs' : ∀ id n m, outer id n → outer' id m → ρ n m)
    {ss : List Schema} {ts us : List StaticType} :
    DescribesAll (.derived o refers fun _ _ => False) outer ss ts →
    DescribesAll (.derived o' refers' fun _ _ => False) outer' ss us → AlikeAll ρ ts us
  | .nil, h' => by
    cases h'
    exact .nil
  | .cons h hs, h' => by
    cases h' with
    | cons h' hs' => exact .cons (Describes.alike pairs pairs' h h') (DescribesAll.alike pairs pairs' hs hs')

end

mutual

/-- A description is like itself, if every name in it corresponds to itself. -/
theorem Describes.alike_self (same : ∀ id n, refers id n → ρ n n)
    {outer : NodeId → String → Prop} (same' : ∀ id n, outer id n → ρ n n) {s : Schema}
    {t : StaticType} :
    Describes (.derived o refers fun _ _ => False) outer s t → Alike ρ t t
  | .leaf hl => .leaf ⟨_, hl⟩
  | .object hshape _ hfields => by
    have fields := DescribesAll.alike_self same same hfields
    obtain ⟨k, rfl, _⟩ := hshape
    exact .object rfl fields
  | .composite hs hts =>
    .composite (Schema.schemaClass_ne_object hs) (DescribesAll.alike_self same same' hts)
  | .reference hn => .reference (same' _ _ hn)
  | .target hopens _ => hopens.elim

theorem DescribesAll.alike_self (same : ∀ id n, refers id n → ρ n n)
    {outer : NodeId → String → Prop} (same' : ∀ id n, outer id n → ρ n n) {ss : List Schema}
    {ts : List StaticType} :
    DescribesAll (.derived o refers fun _ _ => False) outer ss ts → AlikeAll ρ ts ts
  | .nil => .nil
  | .cons h hs => .cons (Describes.alike_self same same' h) (DescribesAll.alike_self same same' hs)

end

end

/-! ## Looking fields up -/

/-- Names correspond: they stand for types that are alike or for nothing, and no known name has two
counterparts. -/
structure Corresponds (ρ : String → String → Prop) (names names' : Names) : Prop where
  entries {n m : String} : ρ n m →
    Option.Rel (Alike ρ) (names.derived.lookup n) (names'.derived.lookup m)
  left {n m m' : String} {t : StaticType} : ρ n m → ρ n m' → names.derived.lookup n = some t → m = m'
  right {n n' m : String} {t : StaticType} : ρ n m → ρ n' m → names'.derived.lookup m = some t → n = n'

/-- Names that correspond and are known. -/
def Known (ρ : String → String → Prop) (names names' : Names) (n m : String) : Prop :=
  ρ n m ∧ (∃ t, names.derived.lookup n = some t) ∧ ∃ u, names'.derived.lookup m = some u

section

variable {names names' : Names} {opened opened' : List String}

/-- Of two names that correspond, both stand for a type or none. -/
theorem Corresponds.lookup_cases (h : Corresponds ρ names names') {n m : String} (hnm : ρ n m) :
    (names.derived.lookup n = none ∧ names'.derived.lookup m = none) ∨
      ∃ t u, names.derived.lookup n = some t ∧ names'.derived.lookup m = some u ∧ Alike ρ t u := by
  have entries := h.entries hnm
  generalize names.derived.lookup n = x, names'.derived.lookup m = y at entries
  cases entries with
  | none => exact .inl ⟨rfl, rfl⟩
  | some htu => exact .inr ⟨_, _, rfl, rfl, htu⟩

/-- Of two names that correspond, both are being replaced or none. -/
theorem Corresponds.contains (h : Corresponds ρ names names')
    (hopened : List.Forall₂ (Known ρ names names') opened opened') {n m : String} (hnm : ρ n m) :
    opened.contains n = opened'.contains m := by
  induction hopened with
  | nil => rfl
  | @cons n' m' opened opened' known _ ih =>
    obtain ⟨hnm', ⟨t, ht⟩, ⟨u, hu⟩⟩ := known
    have same : n = n' ↔ m = m' := by
      constructor
      · rintro rfl
        exact h.left hnm hnm' ht
      · rintro rfl
        exact h.right hnm hnm' hu
    simp only [List.contains_cons, ih]
    by_cases hn : n = n'
    · rw [beq_iff_eq.mpr hn, beq_iff_eq.mpr (same.mp hn)]
    · rw [beq_false_of_ne hn, beq_false_of_ne fun hm => hn (same.mpr hm)]

mutual

/-- One level of replacing the references of types that are alike: `lazies` takes care of the
references. -/
theorem Alike.evaluateStep
    (lazies : ∀ n m, ρ n m → Option.Rel (Alike ρ)
      (Names.evaluateIn names.derived opened (.schema .lazy (some [.reference n])))
      (Names.evaluateIn names'.derived opened' (.schema .lazy (some [.reference m]))))
    {t u : StaticType} : Alike ρ t u →
    Option.Rel (Alike ρ) (Names.evaluateIn names.derived opened t)
      (Names.evaluateIn names'.derived opened' u)
  | .leaf hl => by
    obtain ⟨l, rfl⟩ := hl
    rw [l.evaluateIn_staticType, l.evaluateIn_staticType]
    exact .some (.leaf ⟨l, rfl⟩)
  | .object hnames hfields => by
    rw [Names.evaluateIn, evaluateAll_shape, Names.evaluateIn, evaluateAll_shape]
    exact .some (.object hnames hfields)
  | .composite hc hts => by
    have related := AlikeAll.evaluateStep lazies hts
    rw [Names.evaluateIn, Names.evaluateIn]
    generalize Names.evaluateAll names.derived opened _ = xs at related ⊢
    generalize Names.evaluateAll names'.derived opened' _ = ys at related ⊢
    cases related with
    | none => exact .none
    | some hts' => exact .some (.composite hc hts')
  | .reference hnm => lazies _ _ hnm

theorem AlikeAll.evaluateStep
    (lazies : ∀ n m, ρ n m → Option.Rel (Alike ρ)
      (Names.evaluateIn names.derived opened (.schema .lazy (some [.reference n])))
      (Names.evaluateIn names'.derived opened' (.schema .lazy (some [.reference m]))))
    {ts us : List StaticType} : AlikeAll ρ ts us →
    Option.Rel (AlikeAll ρ) (Names.evaluateAll names.derived opened ts)
      (Names.evaluateAll names'.derived opened' us)
  | .nil => by
    rw [Names.evaluateAll, Names.evaluateAll]
    exact .some .nil
  | .cons h hs => by
    have first := Alike.evaluateStep lazies h
    have rest := AlikeAll.evaluateStep lazies hs
    rw [Names.evaluateAll, Names.evaluateAll]
    generalize Names.evaluateIn names.derived opened _ = x at first ⊢
    generalize Names.evaluateIn names'.derived opened' _ = y at first ⊢
    generalize Names.evaluateAll names.derived opened _ = xs at rest ⊢
    generalize Names.evaluateAll names'.derived opened' _ = ys at rest ⊢
    cases first with
    | none => exact .none
    | some h' =>
      cases rest with
      | none => exact .none
      | some hs' => exact .some (.cons h' hs')

end

/-- Replacing the references of types that are alike gives types that are alike, or nothing. -/
theorem Alike.evaluateIn (h : Corresponds ρ names names') {opened opened' : List String}
    (hopened : List.Forall₂ (Known ρ names names') opened opened') {t u : StaticType}
    (htu : Alike ρ t u) :
    Option.Rel (Alike ρ) (Names.evaluateIn names.derived opened t)
      (Names.evaluateIn names'.derived opened' u) := by
  refine htu.evaluateStep ?_
  intro n m hnm
  have same := h.contains hopened hnm
  cases hn : opened.contains n with
  | true =>
    rw [evaluateIn_lazy_opened hn, evaluateIn_lazy_opened (same.symm.trans hn)]
    exact .some (.reference hnm)
  | false =>
    rw [evaluateIn_lazy_closed hn, evaluateIn_lazy_closed (same.symm.trans hn)]
    rcases h.lookup_cases hnm with ⟨ht, hu⟩ | ⟨t, u, ht, hu, htu⟩
    · rw [ht, hu]
      exact .none
    · have fewer := Names.closedCount_cons_lt ht hn
      have known : Known ρ names names' n m := ⟨hnm, ⟨t, ht⟩, ⟨u, hu⟩⟩
      have behind := Alike.evaluateIn h (.cons known hopened) htu
      simp only [ht, hu, Option.bind_some]
      generalize Names.evaluateIn names.derived _ t = x at behind ⊢
      generalize Names.evaluateIn names'.derived _ u = y at behind ⊢
      cases behind with
      | none => exact .none
      | some hxy => exact .some (.composite (by decide) (.cons hxy .nil))
termination_by Names.closedCount names.derived opened

end

/-! ## Paths -/

/-- Where paths through types that are alike may lead: to types that are alike, or nowhere. -/
inductive Abreast (ρ : String → String → Prop) : StaticType → StaticType → Prop
  | alike {t u : StaticType} : Alike ρ t u → Abreast ρ t u
  | never : Abreast ρ .never .never

theorem Abreast.schemaClass? {t u : StaticType} (h : Abreast ρ t u) :
    t.schemaClass? = u.schemaClass? := by
  cases h with
  | alike h => exact h.schemaClass?
  | never => rfl

theorem Abreast.kind {t u : StaticType} (h : Abreast ρ t u) : t.kind = u.kind := by
  simp only [StaticType.kind, h.schemaClass?]

namespace Corresponds

variable {names names' : Names}

theorem getD_never (h : Corresponds ρ names names') {n m : String} (hnm : ρ n m) :
    Abreast ρ ((names.derived.lookup n).getD .never) ((names'.derived.lookup m).getD .never) := by
  rcases h.lookup_cases hnm with ⟨ht, hu⟩ | ⟨t, u, ht, hu, htu⟩
  · rw [ht, hu]
    exact .never
  · rw [ht, hu]
    exact .alike htu

/-- The parameters at a position. -/
theorem arg (h : Corresponds ρ names names') {t u : StaticType} (htu : Abreast ρ t u)
    (notLeaf : t.kind ≠ .leaf) (notObject : t.kind ≠ .object) (position : Nat) :
    Abreast ρ (names.arg t position) (names'.arg u position) := by
  cases htu with
  | never => exact .never
  | alike htu =>
    cases htu with
    | leaf hl =>
      obtain ⟨l, rfl⟩ := hl
      exact absurd (by cases l <;> rfl) notLeaf
    | object => exact absurd rfl notObject
    | @composite c ts us _ hts =>
      have params := hts.forall₂
      -- Types that are alike have as many parameters, so both have one here or neither has.
      by_cases hlt : position < ts.length
      · have hlt' : position < us.length := params.length_eq ▸ hlt
        have param := params.get hlt hlt'
        obtain ⟨ht, hu⟩ := param.not_isReference
        rw [names.arg_of_not_isReference (List.getElem?_eq_getElem hlt) ht,
          names'.arg_of_not_isReference (List.getElem?_eq_getElem hlt') hu]
        exact .alike param
      · have hlt' : ¬ position < us.length := params.length_eq ▸ hlt
        unfold Names.arg
        rw [show (StaticType.schema c (some ts)).args = ts from rfl,
          show (StaticType.schema c (some us)).args = us from rfl,
          List.getElem?_eq_none (by omega), List.getElem?_eq_none (by omega)]
        exact .never
    | @reference n m hnm =>
      cases position with
      | zero =>
        rw [names.arg_reference, names'.arg_reference]
        exact h.getD_never hnm
      | succ position => exact .never

theorem args {t u : StaticType} (htu : Abreast ρ t u)
    (notLeaf : t.kind ≠ .leaf) (notObject : t.kind ≠ .object) (notLazy : t.kind ≠ .lazy) :
    List.Forall₂ (Abreast ρ) t.args u.args := by
  cases htu with
  | never => exact .nil
  | alike htu =>
    cases htu with
    | leaf hl =>
      obtain ⟨l, rfl⟩ := hl
      exact absurd (by cases l <;> rfl) notLeaf
    | object => exact absurd rfl notObject
    | composite _ hts => exact hts.forall₂.imp fun _ _ h => .alike h
    | reference => exact absurd rfl notLazy

/-- Fields that are alike are alike when they are looked up. -/
theorem evaluate (h : Corresponds ρ names names') {t u : StaticType} (htu : Alike ρ t u)
    (k k' : Nat) : Abreast ρ (names.evaluate (.derived k) t) (names'.evaluate (.derived k') u) := by
  have looked := htu.evaluateIn h .nil
  unfold Names.evaluate
  rw [Names.known_of_not_isReference htu.not_isReference.1,
    Names.known_of_not_isReference htu.not_isReference.2]
  simp only [Names.visible, ShapeId.space?, Names.seenFrom]
  generalize Names.evaluateIn names.derived [] t = x at looked ⊢
  generalize Names.evaluateIn names'.derived [] u = y at looked ⊢
  cases looked with
  | none => exact .never
  | some hxy => exact .alike hxy

theorem lookup (h : Corresponds ρ names names') (k k' : Nat) (name : String)
    {fields fields' : List (String × StaticType)}
    (hnames : fields.map (·.1) = fields'.map (·.1))
    (hfields : AlikeAll ρ (fields.map (·.2)) (fields'.map (·.2))) :
    Option.Rel (Abreast ρ) ((fields.lookup name).map (names.evaluate (.derived k)))
      ((fields'.lookup name).map (names'.evaluate (.derived k'))) := by
  induction fields generalizing fields' with
  | nil =>
    cases fields' with
    | nil => exact .none
    | cons => cases hnames
  | cons field fields ih =>
    cases fields' with
    | nil => cases hnames
    | cons field' fields' =>
      obtain ⟨m, t⟩ := field
      obtain ⟨m', u⟩ := field'
      simp only [List.map_cons, List.cons.injEq] at hnames
      obtain ⟨rfl, hnames⟩ := hnames
      cases hfields with
      | cons htu hrest =>
        simp only [List.lookup_cons]
        by_cases heq : name = m
        · subst heq
          simp only [beq_self_eq_true, Option.map_some]
          exact .some (h.evaluate htu k k')
        · rw [beq_false_of_ne heq]
          exact ih hnames hrest

theorem property? (h : Corresponds ρ names names') {t u : StaticType} (htu : Abreast ρ t u)
    (object : t.kind = .object) (name : String) :
    Related (Option.Rel (Abreast ρ)) (names.property? t name) (names'.property? u name) := by
  cases htu with
  | never => cases object
  | alike htu =>
    cases htu with
    | leaf hl =>
      obtain ⟨l, rfl⟩ := hl
      cases l <;> cases object
    | @object k k' _ _ fields fields' _ _ hnames hfields =>
      have left : ∀ field ∈ fields, names.fault? (.derived k) field.2 = none := by
        intro field hfield
        obtain ⟨_, _, alike⟩ :=
          exists_right_of_forall₂ hfields.forall₂ (List.mem_map_of_mem hfield)
        exact names.fault?_derived alike.not_isReference.1 k
      have right : ∀ field ∈ fields', names'.fault? (.derived k') field.2 = none := by
        intro field hfield
        obtain ⟨_, _, alike⟩ :=
          exists_left_of_forall₂ hfields.forall₂ (List.mem_map_of_mem hfield)
        exact names'.fault?_derived alike.not_isReference.2 k'
      change Related _ (names.fieldOf? _ fields name) (names'.fieldOf? _ fields' name)
      rw [Names.fieldOf?_of_fault? left, Names.fieldOf?_of_fault? right]
      exact .ok (h.lookup k k' name hnames hfields)
    | @composite c _ _ hc => cases c <;> first | exact absurd rfl hc | cases object
    | reference => cases object

/-- Types that are alike are traversed in lock-step. -/
theorem lockstep (h : Corresponds ρ names names') :
    names.view.Lockstep names'.view (Abreast ρ) where
  kind htu := htu.kind
  inner := by
    intro t u htu transparent
    change t.kind.isTransparent = true at transparent
    have notLeaf : t.kind ≠ .leaf := by intro heq; rw [heq] at transparent; cases transparent
    have notObject : t.kind ≠ .object := by intro heq; rw [heq] at transparent; cases transparent
    refine .ok ?_
    unfold Names.innerOf
    rw [htu.kind]
    split
    · exact h.arg htu notLeaf notObject 1
    · exact h.arg htu notLeaf notObject 0
  property name htu object := h.property? htu object name
  element {t u} htu array := by
    change t.kind = .array at array
    exact .ok (h.arg htu (by simp [array]) (by simp [array]) 0)
  value {t u} htu record := by
    change t.kind = .record at record
    exact .ok (h.arg htu (by simp [record]) (by simp [record]) 1)
  items {t u} htu tuple := by
    change t.kind = .tuple at tuple
    exact .ok (args htu (by simp [tuple]) (by simp [tuple]) (by simp [tuple]))
  options {t u} htu union := by
    change t.kind = .union at union
    exact .ok (args htu (by simp [union]) (by simp [union]) (by simp [union]))

/-- Every path leads through types that are alike to types of one class, or it fails in both for the
same reason. -/
theorem typeAt (h : Corresponds ρ names names') {t u : StaticType} (htu : Alike ρ t u)
    (limit : Nat) (path : PathArgument) :
    (names.typeAt limit t path).map StaticType.schemaClass?
      = (names'.typeAt limit u path).map StaticType.schemaClass? := by
  cases hcoerce : path.coerce with
  | error failure =>
    rw [names.typeAt_of_coerce_error hcoerce, names'.typeAt_of_coerce_error hcoerce]
  | ok coerced =>
    obtain ⟨text, pieces⟩ := coerced
    rw [names.typeAt_of_coerce_ok hcoerce, names'.typeAt_of_coerce_ok hcoerce]
    have same := (h.lockstep.walkPieces limit text pieces (.alike htu)).outcome
    generalize (names.view.walkPieces limit text t pieces).outcome = x at same ⊢
    generalize (names'.view.walkPieces limit text u pieces).outcome = y at same ⊢
    cases same with
    | error failure => rfl
    | ok hxy => exact congrArg Except.ok hxy.schemaClass?

end Corresponds

end

end Schemata
