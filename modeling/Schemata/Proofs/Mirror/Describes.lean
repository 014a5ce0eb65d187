import Schemata.Proofs.Schema.Graph
import Schemata.Proofs.Traversal.Simulation
import Schemata.Schema.View
import Schemata.StaticType.View

/-!
# Types that describe schemas

A type describes a schema node for node: it has the class of the schema, and its parameters describe
the children. A lazy schema is described by a reference to a name that stands for it, or, where
references have been replaced, by a description of its target. What may stand for what is a
`Reading`; names outside of shapes are read separately, because they change when the field of a shape
is looked up.

The main statements are that replacing the references of a description gives a description again, and
that a traversal of a description simulates the traversal of the schema.
-/

namespace Schemata

/-- What stands for what in a description. -/
structure Reading where
  /-- The types of a leaf. -/
  leaf : Leaf → StaticType → Prop
  /-- The objects that a shape with a name stands for, by their properties. -/
  shape : ShapeId → String → List (String × Schema) → Prop
  /-- The lazy schemas that a name stands for in the fields of a shape. -/
  refers : ShapeId → NodeId → String → Prop
  /-- The schemas whose description may stand in the place of a reference to a lazy schema. -/
  opens : NodeId → Schema → Prop

/-- Leaves are described by their classes and hold no references. -/
structure Reading.Lawful (ρ : Reading) : Prop where
  leaf_class {l : Leaf} {t : StaticType} : ρ.leaf l t → t.schemaClass? = some l.schemaClass
  leaf_settled {l : Leaf} {t : StaticType} (entries : List (String × StaticType))
    (opened : List String) : ρ.leaf l t → Names.evaluateIn entries opened t = some t

mutual

/-- A type describes a schema. `outer` tells which lazy schemas a name outside of shapes stands for. -/
inductive Describes (ρ : Reading) : (NodeId → String → Prop) → Schema → StaticType → Prop
  | leaf {outer : NodeId → String → Prop} {id : NodeId} {l : Leaf} {t : StaticType} :
    ρ.leaf l t → Describes ρ outer (.leaf id l) t
  | object {outer : NodeId → String → Prop} {id : NodeId} {shape : List (String × Schema)}
      {sid : ShapeId} {name : String} {fields : List (String × StaticType)}
      {optional : List String} :
    ρ.shape sid name shape → shape.map (·.1) = fields.map (·.1) →
    DescribesAll ρ (ρ.refers sid) (shape.map (·.2)) (fields.map (·.2)) →
    Describes ρ outer (.object id shape)
      (.schema .object (some [.shape sid name fields optional]))
  | composite {outer : NodeId → String → Prop} {s : Schema} {ts : List StaticType} :
    s.isComposite = true → DescribesAll ρ outer s.children ts →
    Describes ρ outer s (.schema s.schemaClass (some ts))
  | reference {outer : NodeId → String → Prop} {id : NodeId} {n : String} :
    outer id n → Describes ρ outer (.lazy id) (.schema .lazy (some [.reference n]))
  | target {outer : NodeId → String → Prop} {id : NodeId} {s : Schema} {t : StaticType} :
    ρ.opens id s → Describes ρ outer s t →
    Describes ρ outer (.lazy id) (.schema .lazy (some [t]))

/-- Types describe schemas one by one. -/
inductive DescribesAll (ρ : Reading) :
    (NodeId → String → Prop) → List Schema → List StaticType → Prop
  | nil {outer : NodeId → String → Prop} : DescribesAll ρ outer [] []
  | cons {outer : NodeId → String → Prop} {s : Schema} {ss : List Schema} {t : StaticType}
      {ts : List StaticType} :
    Describes ρ outer s t → DescribesAll ρ outer ss ts →
    DescribesAll ρ outer (s :: ss) (t :: ts)

end

/-! ## Children -/

section

variable {ρ ρ' : Reading} {outer outer' : NodeId → String → Prop}

theorem DescribesAll.forall₂ {ss : List Schema} {ts : List StaticType}
    (h : DescribesAll ρ outer ss ts) : List.Forall₂ (Describes ρ outer) ss ts := by
  induction ss generalizing ts with
  | nil => cases h; exact .nil
  | cons s ss ih =>
    cases h with
    | cons h hs => exact .cons h (ih hs)

theorem DescribesAll.singleton {s : Schema} {ts : List StaticType}
    (h : DescribesAll ρ outer [s] ts) : ∃ t, ts = [t] ∧ Describes ρ outer s t := by
  cases h with
  | cons h hs => cases hs; exact ⟨_, rfl, h⟩

theorem DescribesAll.pair {s s' : Schema} {ts : List StaticType}
    (h : DescribesAll ρ outer [s, s'] ts) :
    ∃ t t', ts = [t, t'] ∧ Describes ρ outer s t ∧ Describes ρ outer s' t' := by
  cases h with
  | cons h hs =>
    obtain ⟨t', rfl, h'⟩ := hs.singleton
    exact ⟨_, t', rfl, h, h'⟩

/-! ## Monotonicity -/

/-- What one reading allows, the other one allows too. -/
structure Reading.Le (ρ ρ' : Reading) : Prop where
  leaf {l : Leaf} {t : StaticType} : ρ.leaf l t → ρ'.leaf l t
  shape {sid : ShapeId} {name : String} {shape : List (String × Schema)} :
    ρ.shape sid name shape → ρ'.shape sid name shape
  refers {sid : ShapeId} {id : NodeId} {n : String} : ρ.refers sid id n → ρ'.refers sid id n
  opens {id : NodeId} {s : Schema} : ρ.opens id s → ρ'.opens id s

theorem Reading.Le.refl (ρ : Reading) : ρ.Le ρ :=
  ⟨fun h => h, fun h => h, fun h => h, fun h => h⟩

mutual

theorem Describes.mono (hρ : ρ.Le ρ') {outer outer' : NodeId → String → Prop}
    (houter : ∀ id n, outer id n → outer' id n) {s : Schema} {t : StaticType} :
    Describes ρ outer s t → Describes ρ' outer' s t
  | .leaf h => .leaf (hρ.leaf h)
  | .object hshape hnames hfields =>
    .object (hρ.shape hshape) hnames (DescribesAll.mono hρ (fun _ _ => hρ.refers) hfields)
  | .composite hs hts => .composite hs (DescribesAll.mono hρ houter hts)
  | .reference h => .reference (houter _ _ h)
  | .target hopens h => .target (hρ.opens hopens) (Describes.mono hρ houter h)

theorem DescribesAll.mono (hρ : ρ.Le ρ') {outer outer' : NodeId → String → Prop}
    (houter : ∀ id n, outer id n → outer' id n) {ss : List Schema} {ts : List StaticType} :
    DescribesAll ρ outer ss ts → DescribesAll ρ' outer' ss ts
  | .nil => .nil
  | .cons h hs => .cons (Describes.mono hρ houter h) (DescribesAll.mono hρ houter hs)

end

/-! ## Looking a field up -/

/-- Every name that is read outside of shapes has an entry, which describes what the name stands
for. -/
def Binds (ρ : Reading) (outer : NodeId → String → Prop) (entries : List (String × StaticType)) :
    Prop :=
  ∀ id n, outer id n →
    ∃ s t, ρ.opens id s ∧ entries.lookup n = some t ∧ Describes ρ outer s t

section

variable {entries : List (String × StaticType)}

theorem evaluateAll_shape (opened : List String) (sid : ShapeId) (name : String)
    (fields : List (String × StaticType)) (optional : List String) :
    Names.evaluateAll entries opened [.shape sid name fields optional]
      = some [.shape sid name fields optional] := by
  simp [Names.evaluateAll, Names.evaluateIn]

@[simp]
theorem evaluateAll_singleton (opened : List String) (t : StaticType) :
    Names.evaluateAll entries opened [t]
      = (Names.evaluateIn entries opened t).map fun t => [t] := by
  cases h : Names.evaluateIn entries opened t <;> simp [Names.evaluateAll, h]

/-- A name that is being replaced stays. -/
theorem evaluateIn_lazy_opened {opened : List String} {n : String}
    (h : opened.contains n = true) :
    Names.evaluateIn entries opened (.schema .lazy (some [.reference n]))
      = some (.schema .lazy (some [.reference n])) := by
  rw [Names.evaluateIn, evaluateAll_singleton, Names.evaluateIn, dif_pos h]
  rfl

/-- Any other name is replaced by what replacing the references of its entry gives. -/
theorem evaluateIn_lazy_closed {opened : List String} {n : String}
    (h : opened.contains n = false) :
    Names.evaluateIn entries opened (.schema .lazy (some [.reference n]))
      = ((entries.lookup n).bind (Names.evaluateIn entries (n :: opened))).map
          fun t => .schema .lazy (some [t]) := by
  rw [Names.evaluateIn, evaluateAll_singleton, Names.evaluateIn, dif_neg (by rw [h]; exact Bool.false_ne_true)]
  split
  next hnone => rw [hnone]; rfl
  next t hsome =>
    rw [hsome, Option.bind_some]
    cases Names.evaluateIn entries (n :: opened) t <;> rfl

/-- What looking a field up has to give: a description again. -/
abbrev Evaluates (ρ : Reading) (outer : NodeId → String → Prop)
    (entries : List (String × StaticType)) (opened : List String) (s : Schema) (t : StaticType) :
    Prop :=
  ∃ t', Names.evaluateIn entries opened t = some t' ∧ Describes ρ outer s t'

mutual

/-- One level of replacing references. Those that are being replaced already stay, and `opens` takes
care of those that have to be opened. -/
theorem Describes.evaluateStep (lawful : ρ.Lawful) {outer outer' : NodeId → String → Prop}
    {opened : List String}
    (stays : ∀ id n, outer id n → opened.contains n = true → outer' id n)
    (opens : ∀ id n, outer id n → opened.contains n = false →
      ∃ s u, ρ.opens id s ∧ entries.lookup n = some u ∧
        Evaluates ρ outer' entries (n :: opened) s u)
    {s : Schema} {t : StaticType} :
    Describes ρ outer s t → Evaluates ρ outer' entries opened s t
  | .leaf h => ⟨t, lawful.leaf_settled entries opened h, .leaf h⟩
  | .object hshape hnames hfields =>
    ⟨_, by rw [Names.evaluateIn, evaluateAll_shape]; rfl, .object hshape hnames hfields⟩
  | .composite hs hts => by
    obtain ⟨ts', heval, hts'⟩ := DescribesAll.evaluateStep lawful stays opens hts
    exact ⟨_, by rw [Names.evaluateIn, heval]; rfl, .composite hs hts'⟩
  | @Describes.reference _ _ id n hn => by
    cases hopened : opened.contains n with
    | true => exact ⟨_, evaluateIn_lazy_opened hopened, .reference (stays id n hn hopened)⟩
    | false =>
      obtain ⟨s, u, hopens, hlookup, u', heval, hu'⟩ := opens id n hn hopened
      refine ⟨.schema .lazy (some [u']), ?_, .target hopens hu'⟩
      rw [evaluateIn_lazy_closed hopened, hlookup, Option.bind_some, heval, Option.map_some]
  | .target hopens hu => by
    obtain ⟨u', heval, hu'⟩ := Describes.evaluateStep lawful stays opens hu
    exact ⟨_, by rw [Names.evaluateIn, evaluateAll_singleton, heval]; rfl, .target hopens hu'⟩

theorem DescribesAll.evaluateStep (lawful : ρ.Lawful) {outer outer' : NodeId → String → Prop}
    {opened : List String}
    (stays : ∀ id n, outer id n → opened.contains n = true → outer' id n)
    (opens : ∀ id n, outer id n → opened.contains n = false →
      ∃ s u, ρ.opens id s ∧ entries.lookup n = some u ∧
        Evaluates ρ outer' entries (n :: opened) s u)
    {ss : List Schema} {ts : List StaticType} :
    DescribesAll ρ outer ss ts →
      ∃ ts', Names.evaluateAll entries opened ts = some ts' ∧ DescribesAll ρ outer' ss ts'
  | .nil => ⟨[], by rw [Names.evaluateAll], .nil⟩
  | .cons h hs => by
    obtain ⟨t', heval, ht'⟩ := Describes.evaluateStep lawful stays opens h
    obtain ⟨ts', hevals, hts'⟩ := DescribesAll.evaluateStep lawful stays opens hs
    exact ⟨_, by rw [Names.evaluateAll, heval, hevals]; rfl, .cons ht' hts'⟩

end

/-- Replacing the references of a description gives a description. -/
theorem Describes.evaluateIn (lawful : ρ.Lawful) (binds : Binds ρ outer entries)
    (opened : List String) {s : Schema} {t : StaticType} (h : Describes ρ outer s t) :
    Evaluates ρ outer entries opened s t := by
  refine h.evaluateStep lawful (fun _ _ hn _ => hn) ?_
  intro id n hn hclosed
  obtain ⟨s, u, hopens, hlookup, hu⟩ := binds id n hn
  have fewer := Names.closedCount_cons_lt hlookup hclosed
  exact ⟨s, u, hopens, hlookup, Describes.evaluateIn lawful binds (n :: opened) hu⟩
termination_by Names.closedCount entries opened

end

end

end Schemata
