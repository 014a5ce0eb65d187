import Schemata.Proofs.Derivation.Equations
import Schemata.Proofs.Derivation.Run

/-!
# References in derived types

What matters in a derived type about the lazy schemas that it refers to: only what its references
stand for, and only for those that a search from the schema reaches.
-/

namespace Schemata

mutual

/-- The names that a type refers to, also in the fields of its shapes. -/
def StaticType.references : StaticType → List String
  | .reference n => [n]
  | .schema _ (some args) => referencesAll args
  | .shape _ _ fields _ => referencesFields fields
  | .list item => references item
  | .dict key value => references key ++ references value
  | .tuple items => referencesAll items
  | .union members => referencesAll members
  | _ => []

def StaticType.referencesAll : List StaticType → List String
  | [] => []
  | t :: rest => references t ++ referencesAll rest

def StaticType.referencesFields : List (String × StaticType) → List String
  | [] => []
  | (_, t) :: rest => references t ++ referencesFields rest

end

theorem StaticType.referencesFields_eq (fields : List (String × StaticType)) :
    referencesFields fields = referencesAll (fields.map (·.2)) := by
  induction fields with
  | nil => rfl
  | cons field rest ih =>
    obtain ⟨name, t⟩ := field
    simp [referencesFields, referencesAll, ih]

theorem Leaf.references_staticType (l : Leaf) : l.staticType.references = [] := by
  rcases l.staticType_cases with h | ⟨members, h⟩ | h <;>
    simp [h, StaticType.references, StaticType.referencesAll]

section

variable {o : Owners} {refers refers' : NodeId → String → Prop}

mutual

/-- Every reference of a description refers to something. -/
theorem Describes.exists_refers {outer : NodeId → String → Prop}
    (houter : ∀ id n, outer id n → refers id n) {s : Schema} {t : StaticType} :
    Describes (.derived o refers fun _ _ => False) outer s t → ∀ n ∈ t.references, ∃ id, refers id n
  | .leaf hl => by
    have none : t.references = [] := (congrArg _ hl).trans (Leaf.references_staticType _)
    simp [none]
  | .object _ _ hfields => by
    have fields := DescribesAll.exists_refers (fun _ _ h => h) hfields
    intro n hn
    simp only [StaticType.references, StaticType.referencesAll, StaticType.referencesFields_eq,
      List.append_nil] at hn
    exact fields n hn
  | .composite _ hts => DescribesAll.exists_refers houter hts
  | .reference hm => by
    intro n hn
    simp only [StaticType.references, StaticType.referencesAll, List.append_nil,
      List.mem_singleton] at hn
    exact ⟨_, hn ▸ houter _ _ hm⟩
  | .target hopens _ => hopens.elim

theorem DescribesAll.exists_refers {outer : NodeId → String → Prop}
    (houter : ∀ id n, outer id n → refers id n) {ss : List Schema} {ts : List StaticType} :
    DescribesAll (.derived o refers fun _ _ => False) outer ss ts →
      ∀ n ∈ StaticType.referencesAll ts, ∃ id, refers id n
  | .nil => by simp [StaticType.referencesAll]
  | .cons h hs => by
    have first := Describes.exists_refers houter h
    have rest := DescribesAll.exists_refers houter hs
    intro n hn
    rcases List.mem_append.mp hn with hn | hn
    · exact first n hn
    · exact rest n hn

end

mutual

/-- Only what the names in a type stand for matters, and only for lazy schemas that are reached. -/
theorem Describes.restrict (scope : Scope) (skip : NodeId → Prop)
    {outer : NodeId → String → Prop} (houter : ∀ id n, outer id n → refers id n) {s : Schema}
    {t : StaticType} :
    Describes (.derived o refers fun _ _ => False) outer s t →
      (∀ id n, n ∈ t.references → scope.Reaches skip s (.lazy id) → refers id n → refers' id n) →
      DescribesDerived o refers' s t
  | .leaf hl => fun _ => .leaf hl
  | .object hshape hnames hfields => fun keep => by
    have fields := DescribesAll.restrict scope skip (fun _ _ h => h) hfields
    refine .object hshape hnames (fields ?_)
    intro c hc id n hn hreach
    refine keep id n ?_ (.head (.child hc) hreach)
    simpa only [StaticType.references, StaticType.referencesAll, StaticType.referencesFields_eq,
      List.append_nil] using hn
  | .composite hs hts => fun keep =>
    .composite hs (DescribesAll.restrict scope skip houter hts fun _ hc id n hn hreach =>
      keep id n hn (.head (.child hc) hreach))
  | .reference hm => fun keep =>
    .reference (keep _ _ (by simp [StaticType.references, StaticType.referencesAll]) .refl
      (houter _ _ hm))
  | .target hopens _ => hopens.elim

theorem DescribesAll.restrict (scope : Scope) (skip : NodeId → Prop)
    {outer : NodeId → String → Prop} (houter : ∀ id n, outer id n → refers id n)
    {ss : List Schema} {ts : List StaticType} :
    DescribesAll (.derived o refers fun _ _ => False) outer ss ts →
      (∀ s ∈ ss, ∀ id n, n ∈ StaticType.referencesAll ts → scope.Reaches skip s (.lazy id) →
        refers id n → refers' id n) →
      DescribesAll (.derived o refers' fun _ _ => False) refers' ss ts
  | .nil => fun _ => .nil
  | .cons h hs => fun keep => by
    have first := Describes.restrict scope skip houter h
    have rest := DescribesAll.restrict scope skip houter hs
    refine .cons (first ?_) (rest ?_)
    · intro id n hn
      exact keep _ List.mem_cons_self id n (List.mem_append_left _ hn)
    · intro s hs id n hn
      exact keep s (List.mem_cons_of_mem _ hs) id n (List.mem_append_right _ hn)

end

end

end Schemata
