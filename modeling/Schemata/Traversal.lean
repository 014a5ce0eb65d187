import Schemata.Kind
import Schemata.Path.Argument
import Schemata.Trail

/-!
# Traversal

One fold for everything that a path can be followed through. A `View` gives the kind of a node and
its children; `View.walk` follows path segments from a root. Transparent nodes are unwrapped before
every step and never after the last one, so a path that ends on a wrapper yields the wrapper.
-/

namespace Schemata

/-- How to look at nodes of type `ν`. A child that a node does not have is a failure. -/
structure View (ν : Type) where
  kind : ν → Kind
  inner : ν → Except Failure ν
  property? : ν → String → Except Failure (Option ν)
  element : ν → Except Failure ν
  value : ν → Except Failure ν
  items : ν → Except Failure (List ν)
  options : ν → Except Failure (List ν)

namespace View

variable {ν : Type} (V : View ν)

/-- Step into transparent nodes, at most `budget` of them, until one is not transparent. -/
def unwrapWithin (exceeded : Failure) : (budget : Nat) → ν → Trail ν ν
  | budget, node =>
    if (V.kind node).isTransparent then
      match budget with
      | 0 => .fail exceeded
      | budget + 1 => do
        let next ← Trail.enter node (V.inner node)
        unwrapWithin exceeded budget next
    else pure node

/-- The first node behind the wrappers of `node`. -/
def unwrap (limit : Nat) (path : String) (node : ν) : Trail ν ν :=
  V.unwrapWithin (.resolution path (.unwrapLimit limit)) limit node

/-- The child of an unwrapped node that a segment names. -/
def child (path : String) (node : ν) : Segment → Except Failure ν
  | .property name =>
    if V.kind node = .object then do
      match ← V.property? node name with
      | some child => return child
      | none => throw (.resolution path (.unknownProperty name))
    else throw (.resolution path (.notAnObject name (V.kind node)))
  | .element =>
    match V.kind node with
    | .array => V.element node
    | .record => V.value node
    | kind => throw (.resolution path (.notIndexable none kind))
  | .index n =>
    match V.kind node with
    | .tuple => do select path n .tuple (← V.items node)
    | .union => do select path n .union (← V.options node)
    | kind => throw (.resolution path (.notIndexable (some n) kind))
where
  /-- The child at a position. -/
  select (path : String) (n : Nat) (kind : Kind) (children : List ν) : Except Failure ν :=
    match children[n]? with
    | some child => .ok child
    | none => .error (.resolution path (.indexOutOfBounds n children.length kind))

/-- Unwrap a node and step to the child that a segment names. -/
def step (limit : Nat) (path : String) (node : ν) (segment : Segment) : Trail ν ν := do
  let unwrapped ← V.unwrap limit path node
  Trail.lift (V.child path unwrapped segment)

/-- Follow segments from `root`. `path` is the complete path text, for failures. -/
def walk (limit : Nat) (path : String) (root : ν) (segments : List Segment) : Trail ν ν :=
  segments.foldlM (V.step limit path) root

/-- Step along one piece of a path. A piece that is no segment is noticed only after unwrapping. -/
def stepPiece (limit : Nat) (path : String) (node : ν) : Piece → Trail ν ν
  | .segment segment => V.step limit path node segment
  | .keyed key => do
    let unwrapped ← V.unwrap limit path node
    if V.kind unwrapped = .object then
      match key.unhashable? with
      | some given => .fail (.unhashable given)
      | none => .fail (.resolution path (.unknownKey key))
    else .fail (.resolution path (.keyOnNonObject key (V.kind unwrapped)))
  | .other v => do
    let _ ← V.unwrap limit path node
    .fail (.notASegment v.typeName)

/-- Follow the pieces of a path from `root`. -/
def walkPieces (limit : Nat) (path : String) (root : ν) (pieces : List Piece) : Trail ν ν :=
  pieces.foldlM (V.stepPiece limit path) root

-- ---------------------------------------------------------------------------
-- Laws
-- ---------------------------------------------------------------------------

section

variable {V} {node : ν}

@[simp] theorem unwrapWithin_of_solid (solid : (V.kind node).isTransparent = false)
    (exceeded : Failure) (budget : Nat) : V.unwrapWithin exceeded budget node = pure node := by
  rw [unwrapWithin.eq_def]
  simp [solid]

@[simp] theorem unwrapWithin_zero (transparent : (V.kind node).isTransparent = true)
    (exceeded : Failure) : V.unwrapWithin exceeded 0 node = .fail exceeded := by
  rw [unwrapWithin, if_pos transparent]

@[simp] theorem unwrapWithin_succ (transparent : (V.kind node).isTransparent = true)
    (exceeded : Failure) (budget : Nat) :
    V.unwrapWithin exceeded (budget + 1) node
      = Trail.enter node (V.inner node) >>= V.unwrapWithin exceeded budget := by
  rw [unwrapWithin, if_pos transparent]

end

variable (limit : Nat) (path : String) (node : ν)

/-- A step enters the wrappers before it. -/
@[simp] theorem entered_step (segment : Segment) :
    (V.step limit path node segment).entered = (V.unwrap limit path node).entered := by
  rw [step, Trail.entered_bind]
  split <;> simp

@[simp] theorem outcome_step (segment : Segment) :
    (V.step limit path node segment).outcome = match (V.unwrap limit path node).outcome with
      | .ok u => V.child path u segment
      | .error failure => .error failure := by
  rw [step, Trail.outcome_bind]
  rfl

@[simp] theorem entered_stepPiece (piece : Piece) :
    (V.stepPiece limit path node piece).entered = (V.unwrap limit path node).entered := by
  cases piece with
  | segment segment => exact V.entered_step limit path node segment
  | keyed key =>
    rw [stepPiece, Trail.entered_bind]
    split
    · split
      · split <;> simp
      · simp
    · rfl
  | other v =>
    rw [stepPiece, Trail.entered_bind]
    split <;> simp

@[simp] theorem walk_nil : V.walk limit path node [] = pure node := rfl

@[simp] theorem walk_cons (segment : Segment) (rest : List Segment) :
    V.walk limit path node (segment :: rest)
      = V.step limit path node segment >>= fun next => V.walk limit path next rest := by
  rw [walk, List.foldlM_cons]
  rfl

@[simp] theorem walkPieces_nil : V.walkPieces limit path node [] = pure node := rfl

@[simp] theorem walkPieces_cons (piece : Piece) (rest : List Piece) :
    V.walkPieces limit path node (piece :: rest)
      = V.stepPiece limit path node piece >>= fun next => V.walkPieces limit path next rest := by
  rw [walkPieces, List.foldlM_cons]
  rfl

/-- Along proper segments the two folds are the same. -/
theorem walkPieces_map_segment (segments : List Segment) :
    V.walkPieces limit path node (segments.map .segment) = V.walk limit path node segments := by
  simp [walkPieces, walk, List.foldlM_map, stepPiece]

end View

end Schemata
