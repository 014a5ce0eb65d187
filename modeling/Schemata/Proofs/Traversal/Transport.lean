import Schemata.Proofs.Traversal.Indistinct

/-!
# What walks transport

One fold follows paths through every view, so two views that are in lock-step are walked in lock-step.
Below, schemas of links in a row and the types that stand for them are two such views.
-/

namespace Schemata

/-- Walks transport every relation in lock-step. From related nodes, under every limit and for every
path text, two walks along the same segments, or along whatever else is given as a path, enter related
wrappers one by one, and they arrive at related nodes or fail alike. Nodes are related by such a
relation if and only if no walk tells them apart. -/
theorem walk_in_lockstep {ν μ : Type} (V : View ν) (W : View μ) (a : ν) (b : μ) :
    (∀ R : ν → μ → Prop, V.Lockstep W R → R a b → ∀ limit path,
      (∀ segments, Trail.InStep R (V.walk limit path a segments) (W.walk limit path b segments)) ∧
      ∀ pieces,
        Trail.InStep R (V.walkPieces limit path a pieces) (W.walkPieces limit path b pieces)) ∧
    ((∃ R : ν → μ → Prop, V.Lockstep W R ∧ R a b) ↔ V.Indistinct W a b) := by
  refine ⟨?_, ?_, ?_⟩
  · intro R h hab limit path
    refine ⟨?_, ?_⟩
    · intro segments
      exact h.walk limit path segments hab
    · intro pieces
      exact h.walkPieces limit path pieces hab
  · rintro ⟨R, h, hab⟩
    exact h.indistinct hab
  · intro h
    exact ⟨V.Indistinct W, View.Indistinct.lockstep V W, h⟩

/-! ## Links, as schemas and as types -/

/-- A link has a text, and another link may follow it. -/
def link : Schema :=
  .object 1 [("text", .leaf 2 (.string false)), ("next", .wrapper 3 .nullable (.lazy 0))]

def linkScope : Scope :=
  { defs := [("LINK", .schema link)], getters := [(0, .named "LINK")] }

def linkType : StaticType :=
  .schema .object (some [.shape (.derived 0) "Link"
    [("text", .schema .string none),
      ("next", .schema .nullable (some [.schema .lazy (some [.reference "Link"])]))] []])

def linkNames : Names :=
  { Names.empty with derived := [("Link", linkType)] }

/-- The way to the text of the second link behind a link. -/
def twoLinksOn : List Segment :=
  [.property "next", .property "next", .property "text"]

/-- The types that stand for the schemas of links. The reference of a field is replaced when the field
is looked up. -/
inductive LinkDescribed : Schema → StaticType → Prop
  | link : LinkDescribed link linkType
  | text : LinkDescribed (.leaf 2 (.string false)) (.schema .string none)
  | next : LinkDescribed (.wrapper 3 .nullable (.lazy 0))
      (.schema .nullable (some [.schema .lazy (some [linkType])]))
  | behind : LinkDescribed (.lazy 0) (.schema .lazy (some [linkType]))

theorem linkDescribed_lockstep : linkScope.view.Lockstep linkNames.view LinkDescribed where
  kind h := by cases h <;> rfl
  inner h transparent := by
    cases h with
    | link => cases transparent
    | text => cases transparent
    | next => exact .ok .behind
    | behind => exact .ok .link
  property name h object := by
    cases h with
    | link =>
      have text : linkNames.view.property? linkType "text" = .ok (some (.schema .string none)) := by
        cbv
      have next : linkNames.view.property? linkType "next"
          = .ok (some (.schema .nullable (some [.schema .lazy (some [linkType])]))) := by cbv
      by_cases htext : name = "text"
      · subst htext
        rw [text]
        exact .ok (.some .text)
      · by_cases hnext : name = "next"
        · subst hnext
          rw [next]
          exact .ok (.some .next)
        · have missing : linkScope.view.property? link name = .ok none := by
            change Except.ok (List.lookup name _) = _
            simp [List.lookup_cons, beq_false_of_ne htext, beq_false_of_ne hnext]
          have missing' : linkNames.view.property? linkType name = .ok none := by
            change linkNames.fieldOf? _ _ name = _
            simp [Names.fieldOf?, List.lookup_cons, beq_false_of_ne htext, beq_false_of_ne hnext]
          rw [missing, missing']
          exact .ok .none
    | text => cases object
    | next => cases object
    | behind => cases object
  element h array := by cases h <;> cases array
  value h record := by cases h <;> cases record
  items h tuple := by cases h <;> cases tuple
  options h union := by cases h <;> cases union

/-- Two links on, both views arrive at a text if two wrappers in a row are allowed, and neither does if
one is. -/
theorem walk_in_lockstep_link :
    linkScope.view.Lockstep linkNames.view LinkDescribed ∧ LinkDescribed link linkType ∧
    (∃ t, (linkNames.view.walk 2 "next.next.text" linkType twoLinksOn).outcome = .ok t ∧
      LinkDescribed (.leaf 2 (.string false)) t) ∧
    (linkNames.view.walk 1 "next.next.text" linkType twoLinksOn).outcome
      = .error (.resolution "next.next.text" (.unwrapLimit 1)) ∧
    linkScope.view.Indistinct linkNames.view link linkType := by
  obtain ⟨walks, alike⟩ := walk_in_lockstep linkScope.view linkNames.view link linkType
  refine ⟨linkDescribed_lockstep, .link, ?_, ?_, ?_⟩
  · have inStep := (walks LinkDescribed linkDescribed_lockstep .link 2 "next.next.text").1
      twoLinksOn
    have arrives : (linkScope.view.walk 2 "next.next.text" link twoLinksOn).outcome
        = .ok (.leaf 2 (.string false)) := rfl
    exact (arrives ▸ inStep.outcome).exists_of_ok
  · have inStep := (walks LinkDescribed linkDescribed_lockstep .link 1 "next.next.text").1 twoLinksOn
    have stops : (linkScope.view.walk 1 "next.next.text" link twoLinksOn).outcome
        = .error (.resolution "next.next.text" (.unwrapLimit 1)) := rfl
    exact (stops ▸ inStep.outcome).eq_error
  · exact alike.mp ⟨LinkDescribed, linkDescribed_lockstep, .link⟩

end Schemata
