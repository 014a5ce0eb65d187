import Mathlib
import Schemata.Proofs.Mirror.View

/-!
# Paths through declared types

A declared type describes a schema node for node. Its lazy types hold references, which are bound in
the namespace of the shape around them. When the field of a shape is looked up, a reference is
replaced once along every branch of the type; what recurs behind it without another shape in between
keeps its reference, and nothing derived stands behind that one. A path mirrors the path through the
schema as long as it does not have to follow such a reference.
-/

namespace Schemata

/-- The reading of declared types: leaves have their classes and hold no references, and `refers`
tells which lazy schemas a name stands for in the fields of a shape. -/
def Reading.declared (scope : Scope) (refers : ShapeId → NodeId → String → Prop) : Reading where
  leaf l t := t.schemaClass? = some l.schemaClass ∧
    ∀ entries opened, Names.evaluateIn entries opened t = some t
  shape _ _ _ := True
  refers := refers
  opens id s := scope.target id = .ok s

section

variable {scope : Scope} {names : Names} {refers : ShapeId → NodeId → String → Prop}

theorem Reading.declared_lawful : (Reading.declared scope refers).Lawful where
  leaf_class h := h.1
  leaf_settled entries opened h := h.2 entries opened

/-- The readings of names that occur: none outside of shapes, and those in the fields of shapes. -/
def Reading.DeclaredOuter (refers : ShapeId → NodeId → String → Prop)
    (outer : NodeId → String → Prop) : Prop :=
  (outer = fun _ _ => False) ∨ ∃ sid, outer = refers sid

theorem Reading.declared_traversable
    (binds : ∀ sid, Binds (.declared scope refers) (refers sid) (names.visible sid)) :
    (Reading.declared scope refers).Traversable scope names (DeclaredOuter refers)
      names.Unresolved where
  lawful := declared_lawful
  looked {sid s t} hst :=
    ⟨_, .inr ⟨sid, rfl⟩, hst.evaluate declared_lawful (hst.evaluateIn declared_lawful (binds sid) [])⟩
  faultless {sid s t} hst := hst.fault? declared_lawful (hst.evaluateIn declared_lawful (binds sid) [])
  opens h := h
  resolved := by
    rintro outer id n u (rfl | ⟨sid, rfl⟩) hn hu
    · exact hn.elim
    · obtain ⟨s, t, htarget, hlookup, ht⟩ := binds sid id n hn
      obtain rfl := Option.some.inj (hlookup.symm.trans (names.lookup_visible sid hu))
      exact ⟨s, _, .inr ⟨sid, rfl⟩, htarget, ht⟩
  unresolved _ _ hnone := ⟨_, rfl, hnone⟩
  lost h := h

/-- A path through a type that describes a schema mirrors the path through the schema just when it
does not look behind a lazy type whose reference was left, unless it leads nowhere in the schema
either. -/
theorem mirrors_declared_iff
    (binds : ∀ sid, Binds (.declared scope refers) (refers sid) (names.visible sid))
    {s : Schema} {t : StaticType}
    (hst : Describes (.declared scope refers) (fun _ _ => False) s t) (limit : Nat)
    (path : PathArgument) :
    let resolved := (scope.resolve limit s path).outcome
    Mirrors resolved (names.typeAt limit t path) ↔
      (∃ failure, resolved = .error failure ∧ failure.isPathFailure = true) ∨
        ∀ u ∈ names.entered limit t path, ¬ names.Unresolved u := by
  intro resolved
  rcases (Reading.declared_traversable binds).follows (.inl rfl) hst limit path with
    ⟨clear, mirrors⟩ | ⟨⟨u, hu, left⟩, never⟩
  · exact ⟨fun _ => .inr clear, fun _ => mirrors⟩
  · constructor
    · intro mirrors
      exact .inl (mirrors.never_iff.mp never)
    · rintro (⟨failure, hfailure, hpath⟩ | clear)
      · rw [never, hfailure]
        exact .nowhere hpath
      · exact absurd left (clear u hu)

end

/-! ## Rows within rows -/

/-- Rows that consist of rows, without an object in between. -/
def rowsScope : Scope :=
  { defs := [("ROWS", .schema (.array 1 (.lazy 0)))], getters := [(0, .named "ROWS")] }

def table : Schema :=
  .object 2 [("rows", .lazy 0)]

def rowsType : StaticType :=
  .schema .array (some [.schema .lazy (some [.reference "Rows"])])

def tableType : StaticType :=
  .schema .object (some [.shape (.declared 0 0) "Table"
    [("rows", .schema .lazy (some [.reference "Rows"]))] []])

def rowsNames : Names :=
  { Names.empty with declared := [(0, "Rows", rowsType)] }

def rowsRefers (sid : ShapeId) (id : NodeId) (n : String) : Prop :=
  sid = .declared 0 0 ∧ id = 0 ∧ n = "Rows"

theorem rowsType_binds (sid : ShapeId) :
    Binds (.declared rowsScope rowsRefers) (rowsRefers sid) (rowsNames.visible sid) := by
  rintro id n ⟨rfl, rfl, rfl⟩
  refine ⟨.array 1 (.lazy 0), rowsType, rfl, rfl, ?_⟩
  exact .composite rfl (.cons (.reference ⟨rfl, rfl, rfl⟩) .nil)

theorem tableType_describes :
    Describes (.declared rowsScope rowsRefers) (fun _ _ => False) table tableType :=
  .object trivial rfl (.cons (.reference ⟨rfl, rfl, rfl⟩) .nil)

/-- The type describes the table, and yet the rows of a row are found in the table only. -/
theorem rows_of_row_not_mirrored :
    (∀ sid, Binds (.declared rowsScope rowsRefers) (rowsRefers sid) (rowsNames.visible sid)) ∧
      Describes (.declared rowsScope rowsRefers) (fun _ _ => False) table tableType ∧
      (rowsScope.resolve 64 table (.text "rows[][]")).outcome = .ok (.lazy 0) ∧
      rowsNames.typeAt 64 tableType (.text "rows[][]") = .ok .never := by
  refine ⟨rowsType_binds, tableType_describes, ?_, ?_⟩
  · cbv
  · cbv

/-- The rows of the table themselves are mirrored. -/
theorem rows_mirrored :
    (∀ sid, Binds (.declared rowsScope rowsRefers) (rowsRefers sid) (rowsNames.visible sid)) ∧
      Describes (.declared rowsScope rowsRefers) (fun _ _ => False) table tableType ∧
      Mirrors (rowsScope.resolve 64 table (.text "rows[]")).outcome
        (rowsNames.typeAt 64 tableType (.text "rows[]")) := by
  refine ⟨rowsType_binds, tableType_describes, ?_⟩
  refine (mirrors_declared_iff rowsType_binds tableType_describes 64 (.text "rows[]")).mpr (.inr ?_)
  have entered : rowsNames.entered 64 tableType (.text "rows[]")
      = [.schema .lazy (some [rowsType])] := by cbv
  rw [entered]
  rintro u hu ⟨n, rfl, _⟩
  cases List.mem_singleton.mp hu

end Schemata
