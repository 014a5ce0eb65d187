import Mathlib.Data.List.Forall2
import Schemata.Traversal

/-!
# Simulation of views

Two views are followed side by side. If related nodes look the same to a traversal and have related
children, a path leads both to related nodes, or it fails in both for the same reason. A view may
also lose its way: a lost node leads to a leaf, whatever the other view finds behind it. Then the
walk that is lost fails, unless the path ends before.
-/

namespace Schemata

variable {ν μ α β : Type}

/-- The same failure, or two results that are related. -/
inductive Related (R : α → β → Prop) : Except Failure α → Except Failure β → Prop
  | ok {a : α} {b : β} : R a b → Related R (.ok a) (.ok b)
  | error (failure : Failure) : Related R (.error failure) (.error failure)

namespace Related

variable {R S : α → β → Prop}

theorem mono {x : Except Failure α} {y : Except Failure β} (h : Related R x y)
    (hRS : ∀ a b, R a b → S a b) : Related S x y := by
  cases h with
  | ok h => exact .ok (hRS _ _ h)
  | error failure => exact .error failure

theorem symm {x : Except Failure α} {y : Except Failure β} (h : Related R x y) :
    Related (fun b a => R a b) y x := by
  cases h with
  | ok h => exact .ok h
  | error failure => exact .error failure

theorem exists_of_ok {a : α} {y : Except Failure β} (h : Related R (.ok a) y) :
    ∃ b, y = .ok b ∧ R a b := by
  cases h with
  | ok hab => exact ⟨_, rfl, hab⟩

theorem eq_error {failure : Failure} {y : Except Failure β} (h : Related R (.error failure) y) :
    y = .error failure := by
  cases h
  rfl

end Related

/-- Two walks side by side: they enter related nodes, one by one, and find related nodes or fail
alike. -/
structure Trail.InStep (R : ν → μ → Prop) (x : Trail ν ν) (y : Trail μ μ) : Prop where
  entered : List.Forall₂ R x.entered y.entered
  outcome : Related R x.outcome y.outcome

namespace View

/-- Related nodes have the same kind and, where a traversal reads them, related children. What stands
behind a node of the second view that is `Lost` need not be related to anything. -/
structure Simulation (V : View ν) (W : View μ) (R : ν → μ → Prop) (Lost : μ → Prop) : Prop where
  kind {a : ν} {b : μ} : R a b → V.kind a = W.kind b
  inner {a : ν} {b : μ} : R a b → (V.kind a).isTransparent = true → ¬ Lost b →
    Related R (V.inner a) (W.inner b)
  lost {a : ν} {b : μ} : R a b → Lost b → ∃ c, W.inner b = .ok c ∧ W.kind c = .leaf
  property {a : ν} {b : μ} (name : String) : R a b → V.kind a = .object →
    Related (Option.Rel R) (V.property? a name) (W.property? b name)
  element {a : ν} {b : μ} : R a b → V.kind a = .array → Related R (V.element a) (W.element b)
  value {a : ν} {b : μ} : R a b → V.kind a = .record → Related R (V.value a) (W.value b)
  items {a : ν} {b : μ} : R a b → V.kind a = .tuple →
    Related (List.Forall₂ R) (V.items a) (W.items b)
  options {a : ν} {b : μ} : R a b → V.kind a = .union →
    Related (List.Forall₂ R) (V.options a) (W.options b)

/-- How a walk over the second view goes along with one over the first: both arrive at related nodes
or fail alike, or the second one has entered a lost node and fails for it. -/
inductive Follows (R : ν → μ → Prop) (Lost : μ → Prop) (x : Trail ν ν) (y : Trail μ μ) : Prop
  | together (clear : ∀ b ∈ y.entered, ¬ Lost b) (same : Related R x.outcome y.outcome)
  | astray (lost : ∃ b ∈ y.entered, Lost b)
      (fails : ∃ failure, y.outcome = .error failure ∧ failure.isPathFailure = true)

theorem Follows.pure {R : ν → μ → Prop} {Lost : μ → Prop} {a : ν} {b : μ} (h : R a b) :
    Follows R Lost (pure a) (pure b) :=
  .together (by simp) (.ok h)

theorem Follows.bind {R : ν → μ → Prop} {Lost : μ → Prop} {x : Trail ν ν} {y : Trail μ μ}
    {f : ν → Trail ν ν} {g : μ → Trail μ μ} (h : Follows R Lost x y)
    (hfg : ∀ a b, R a b → Follows R Lost (f a) (g b)) :
    Follows R Lost (x >>= f) (y >>= g) := by
  cases h with
  | together clear same =>
    obtain ⟨before, _ | a⟩ := x <;> obtain ⟨entered, _ | b⟩ := y <;> cases same
    case error.error =>
      exact .together clear (.error _)
    case ok.ok hab =>
      -- A node that was lost at any time stays among those that were entered.
      cases hfg a b hab with
      | together clear' same =>
        refine .together ?_ same
        intro c hc
        rcases List.mem_append.mp hc with hc | hc
        · exact clear c hc
        · exact clear' c hc
      | astray lost fails =>
        obtain ⟨c, hc, hlost⟩ := lost
        exact .astray ⟨c, List.mem_append_right _ hc, hlost⟩ fails
  | astray lost fails =>
    obtain ⟨failure, hy, hpath⟩ := fails
    rw [Trail.bind_of_error hy]
    exact .astray lost ⟨failure, rfl, hpath⟩

namespace Simulation

variable {V : View ν} {W : View μ} {R : ν → μ → Prop} {Lost : μ → Prop}

/-- Unwrapping goes in step from related nodes, or it leads to a leaf behind a lost node. -/
theorem unwrapWithin (h : Simulation V W R Lost) (exceeded : Failure) (budget : Nat) {a : ν} {b : μ}
    (hab : R a b) :
    let x := V.unwrapWithin exceeded budget a
    let y := W.unwrapWithin exceeded budget b
    ((∀ c ∈ y.entered, ¬ Lost c) ∧ Trail.InStep R x y) ∨
      ((∃ c ∈ y.entered, Lost c) ∧ ∃ c, y.outcome = .ok c ∧ W.kind c = .leaf) := by
  -- Related nodes have the same kind, so both unwrappings stop or go on together.
  induction budget generalizing a b with
  | zero =>
    left
    simp only [View.unwrapWithin, ← h.kind hab]
    split
    · exact ⟨by simp [Trail.fail], .nil, .error _⟩
    · exact ⟨by simp, .nil, .ok hab⟩
  | succ budget ih =>
    simp only [View.unwrapWithin, ← h.kind hab]
    split
    case isFalse => exact .inl ⟨by simp, .nil, .ok hab⟩
    case isTrue transparent =>
      by_cases lost : Lost b
      · -- the leaf behind a lost node ends the unwrapping
        obtain ⟨c, hc, leaf⟩ := h.lost hab lost
        have stop : W.unwrapWithin exceeded budget c = Pure.pure c := by
          unfold View.unwrapWithin
          simp [leaf, Kind.isTransparent]
        right
        rw [hc, Trail.bind_of_ok (a := c) rfl, stop]
        exact ⟨⟨b, by simp [Trail.enter], lost⟩, c, rfl, leaf⟩
      · have related := h.inner hab transparent lost
        generalize V.inner a = x at related
        generalize W.inner b = y at related
        cases related with
        | error failure =>
          left
          rw [Trail.bind_of_error rfl, Trail.bind_of_error rfl]
          exact ⟨by simpa [Trail.enter] using lost, .cons hab .nil, .error failure⟩
        | @ok a' b' hab' =>
          rw [Trail.bind_of_ok (a := a') rfl, Trail.bind_of_ok (a := b') rfl]
          rcases ih hab' with ⟨clear, rest⟩ | ⟨⟨c, hc, hlost⟩, leaf⟩
          · left
            refine ⟨?_, .cons hab rest.entered, rest.outcome⟩
            intro c hc
            rcases List.mem_append.mp hc with hc | hc
            · simp only [Trail.enter, List.mem_singleton] at hc
              exact hc ▸ lost
            · exact clear c hc
          · exact .inr ⟨⟨c, List.mem_append_right _ hc, hlost⟩, leaf⟩

theorem select {R : ν → μ → Prop} (path : String) (n : Nat) (kind : Kind) {as : List ν}
    {bs : List μ} (h : List.Forall₂ R as bs) :
    Related R (View.child.select path n kind as) (View.child.select path n kind bs) := by
  unfold View.child.select
  rw [h.length_eq]
  by_cases hn : n < as.length
  · have hn' : n < bs.length := h.length_eq ▸ hn
    rw [List.getElem?_eq_getElem hn, List.getElem?_eq_getElem hn']
    exact .ok (h.get hn hn')
  · have hn' : ¬ n < bs.length := h.length_eq ▸ hn
    rw [List.getElem?_eq_none (by omega), List.getElem?_eq_none (by omega)]
    exact .error _

/-- Related nodes that are unwrapped have related children, or none for the same reason. -/
theorem child (h : Simulation V W R Lost) (path : String) (segment : Segment) {a : ν} {b : μ}
    (hab : R a b) : Related R (V.child path a segment) (W.child path b segment) := by
  have kinds := h.kind hab
  cases segment with
  | property name =>
    simp only [View.child, ← kinds]
    split
    case isFalse => exact .error _
    case isTrue object =>
      have related := h.property name hab object
      generalize V.property? a name = x at related
      generalize W.property? b name = y at related
      cases related with
      | error failure => exact .error failure
      | ok related =>
        cases related with
        | none => exact .error _
        | some related => exact .ok related
  | element =>
    simp only [View.child, ← kinds]
    split
    case h_1 array => exact h.element hab array
    case h_2 record => exact h.value hab record
    case h_3 => exact .error _
  | index n =>
    simp only [View.child, ← kinds]
    split
    case h_1 tuple =>
      have related := h.items hab tuple
      generalize V.items a = x at related
      generalize W.items b = y at related
      cases related with
      | error failure => exact .error failure
      | ok related => exact select path n .tuple related
    case h_2 union =>
      have related := h.options hab union
      generalize V.options a = x at related
      generalize W.options b = y at related
      cases related with
      | error failure => exact .error failure
      | ok related => exact select path n .union related
    case h_3 => exact .error _

/-- A leaf has no children. -/
theorem child_of_leaf {W : View μ} (path : String) (segment : Segment) {c : μ}
    (leaf : W.kind c = .leaf) :
    ∃ failure, W.child path c segment = .error failure ∧ failure.isPathFailure = true := by
  cases segment <;>
    exact ⟨_, by simp only [View.child, leaf]; rfl, rfl⟩

theorem stepPiece (h : Simulation V W R Lost) (limit : Nat) (path : String) {a : ν} {b : μ}
    (hab : R a b) {piece : Piece} (proper : ∀ v, piece ≠ .other v) :
    Follows R Lost (V.stepPiece limit path a piece) (W.stepPiece limit path b piece) := by
  have unwrapped := h.unwrapWithin (.resolution path (.unwrapLimit limit)) limit hab
  simp only at unwrapped
  cases piece with
  | other v => exact absurd rfl (proper v)
  | segment segment =>
    simp only [View.stepPiece, View.step, View.unwrap]
    rcases unwrapped with ⟨clear, -, same⟩ | ⟨lost, c, hc, leaf⟩
    · generalize V.unwrapWithin _ limit a = x at same ⊢
      generalize W.unwrapWithin _ limit b = y at same clear ⊢
      obtain ⟨before, _ | a'⟩ := x <;> obtain ⟨entered, _ | b'⟩ := y <;> cases same
      case error.error => exact .together clear (.error _)
      case ok.ok hab' =>
        rw [Trail.bind_of_ok rfl, Trail.bind_of_ok rfl]
        exact .together (by simpa [Trail.lift] using clear) (h.child path segment hab')
    · obtain ⟨failure, hfailure, hpath⟩ := child_of_leaf (W := W) path segment leaf
      rw [Trail.bind_of_ok hc]
      obtain ⟨d, hd, hlost⟩ := lost
      exact .astray ⟨d, List.mem_append_left _ hd, hlost⟩ ⟨failure, hfailure, hpath⟩
  | keyed key =>
    simp only [View.stepPiece, View.unwrap]
    rcases unwrapped with ⟨clear, -, same⟩ | ⟨lost, c, hc, leaf⟩
    · generalize V.unwrapWithin _ limit a = x at same ⊢
      generalize W.unwrapWithin _ limit b = y at same clear ⊢
      obtain ⟨before, _ | a'⟩ := x <;> obtain ⟨entered, _ | b'⟩ := y <;> cases same
      case error.error => exact .together clear (.error _)
      case ok.ok hab' =>
        rw [Trail.bind_of_ok rfl, Trail.bind_of_ok rfl, h.kind hab']
        split
        · split <;> exact .together (by simpa [Trail.fail] using clear) (.error _)
        · exact .together (by simpa [Trail.fail] using clear) (.error _)
    · rw [Trail.bind_of_ok hc]
      obtain ⟨d, hd, hlost⟩ := lost
      refine .astray ⟨d, List.mem_append_left _ hd, hlost⟩ ?_
      rw [leaf]
      exact ⟨_, rfl, rfl⟩

/-- Along the pieces of a path, a walk over the second view follows the one over the first. -/
theorem walkPieces (h : Simulation V W R Lost) (limit : Nat) (path : String) {a : ν} {b : μ}
    (hab : R a b) {pieces : List Piece} (proper : ∀ v, Piece.other v ∉ pieces) :
    Follows R Lost (V.walkPieces limit path a pieces) (W.walkPieces limit path b pieces) := by
  induction pieces generalizing a b with
  | nil => exact .pure hab
  | cons piece rest ih =>
    simp only [View.walkPieces, List.foldlM_cons]
    refine Follows.bind (h.stepPiece limit path hab ?_) ?_
    · rintro v rfl
      exact proper v List.mem_cons_self
    · intro a' b' hab'
      exact ih hab' fun v hv => proper v (List.mem_cons_of_mem _ hv)

end Simulation

end View

namespace Piece

/-- Only segments and property steps can be written down. -/
theorem other_notMem_of_writeFrom {pieces : List Piece} {first : Bool} {text : String}
    (h : writeFrom first pieces = .ok text) (v : Value) : Piece.other v ∉ pieces := by
  induction pieces generalizing first text with
  | nil => simp
  | cons piece rest ih =>
    cases piece with
    | other w => simp [writeFrom] at h
    | segment s =>
      simp only [writeFrom] at h
      split at h
      · cases h
      · cases hrest : writeFrom false rest with
        | error failure => rw [hrest] at h; cases h
        | ok others => simpa using ih hrest
    | keyed key =>
      simp only [writeFrom] at h
      split at h
      · cases h
      · split at h
        · cases h
        · next others hrest => simpa using ih hrest

end Piece

namespace PathArgument

/-- A path that is accepted in any form has no piece that is neither a segment nor a property
step. -/
theorem other_notMem_of_coerce {path : PathArgument} {text : String} {pieces : List Piece}
    (h : path.coerce = .ok (text, pieces)) (v : Value) : Piece.other v ∉ pieces := by
  have written {ps : List Piece} (hw : (Piece.write ps).map (·, ps) = .ok (text, pieces)) :
      Piece.other v ∉ pieces := by
    cases hps : Piece.write ps with
    | error failure => rw [hps] at hw; cases hw
    | ok t =>
      rw [hps] at hw
      cases hw
      exact Piece.other_notMem_of_writeFrom hps v
  cases path with
  | text s =>
    simp only [coerce] at h
    cases hs : parse s with
    | error failure => rw [hs] at h; cases h
    | ok segments =>
      rw [hs] at h
      cases h
      simp
  | reference ps => exact written h
  | list ps => exact written h
  | tuple ps => exact written h
  | other w =>
    simp only [coerce] at h
    split at h
    · exact written h
    · cases h

end PathArgument

end Schemata
