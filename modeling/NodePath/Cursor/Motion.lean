/-
# NodePath.Cursor.Motion — moving a cursor

How the last stage of a cursor moves follows from how the stages before it move: **Motion** is the four
ways to move a cursor of some length, and `Motion.next` makes the motion of a cursor that is one stage
longer. A predicate is evaluated against the stages before it, positioned at the node in question.

* §A  `Motion` and `Surroundings`.
* §B  From one set to the next.
* §C  From one node to the next.
* §D  Positions.
* §E  `motion`, for cursors of any length.
-/
import NodePath.Coercion
import NodePath.Cursor.Walk
import NodePath.Pointer.Axis

namespace NodePath

/-! ## §A  Motions -/

/-- **Motion** is how a cursor moves. -/
structure Motion where
  /-- Goes before the first node of the next set, if there is one. -/
  nextSet : Walk Bool
  /-- Goes to the next node of the set, if there is one. -/
  nextNode : Walk Bool
  /-- Goes to the node at a position of the set, if there is one; position zero is before the first. -/
  setPosition : Nat → Walk Bool
  /-- The node at the position; before the first node, it goes to that. -/
  current : Walk (Option Pointer)

/-- **Surroundings** is what stages ask for outside of their cursor. -/
structure Surroundings where
  /-- The address that a label stands for. -/
  resolve : Store → String → Option String
  /-- The value of a predicate against a cursor that moves in some way; of a node-set, the first node. -/
  test : Motion → Expr → Walk Datum

namespace Motion

/-- How a cursor without stages moves: not at all. -/
def still : Motion where
  nextSet := pure false
  nextNode := pure false
  setPosition _ := pure false
  current := pure none

/-! ## §B  Sets -/

/-- Goes to the first node of the next set that has one. -/
def enter (m : Motion) : Walk Bool :=
  Walk.repeatUntil do
    if !(← m.nextSet) then pure (some false)
    else if ← m.nextNode then pure (some true)
    else pure none

/-- Goes to the node that the next set of an axis starts from: the next one of the set, or else the first
one of a later set. -/
def nextOrigin (up : Motion) (started : Bool) : Walk Bool := do
  if started then
    if ← up.nextNode then return true
  up.enter

/-- Whether the last stage has one more set. -/
def findSet (up : Motion) (f : Frame) : Walk Bool :=
  let started := f.progress == .inSet
  match f.stage with
  | .start _ _ => pure !started
  | .known _ _ => pure !started
  | .axis _ _ _ => Walk.inEarlier false (up.nextOrigin started)
  | .condition _ _ _ => Walk.inEarlier false up.nextSet

/-- Goes before the first node of the next set. -/
def advanceSet (up : Motion) : Walk Bool := do
  Walk.move Cursor.rewound
  let f ← Walk.frame
  if f.progress == .exhausted then return false
  let found ← up.findSet f
  Walk.modifyFrame ({ · with progress := if found then .inSet else .exhausted })
  pure found

/-! ## §C  Nodes -/

/-- The nodes of an axis that are left, if the stage before it is at a node. -/
def pendingNodes (up : Motion) (axis : Axis) : Option (List Pointer) → Walk (Option (List Pointer))
  | some nodes => pure (some nodes)
  | none => do
    match ← Walk.inEarlier none up.current with
    | none => pure none
    | some origin => do
      let origin ← Walk.lift origin.opened
      pure (some (axis.nodes origin (← Walk.store)))

/-- The next node along an axis that passes a test. -/
def nextAlong (s : Surroundings) (up : Motion) (axis : Axis) (test : NodeTest)
    (pending : Option (List Pointer)) : Walk (Option Pointer) := do
  match ← up.pendingNodes axis pending with
  | none => pure none
  | some nodes =>
    let st ← Walk.store
    let rest := nodes.dropWhile fun p => !test.accepts (s.resolve st) p st
    Walk.modifyFrame ({ · with stage := .axis axis test (some (rest.drop 1)) })
    pure rest.head?

/-- What the search for a node that a predicate holds of comes to. -/
inductive Match where
  | missing
  | node (p : Option Pointer)
  /-- The predicate selects the node at a position. -/
  | position (x : Float)

/-- Looks at the next node of the set and answers once the search is over. -/
def tryNext (s : Surroundings) (up : Motion) (expr : Expr) (positional : Bool) : Walk (Option Match) := do
  if !(← up.nextNode) then pure (some .missing)
  else
    match ← s.test up expr, positional with
    | .number x, true => pure (some (.position x))
    | .number x, false =>
      if x == Number.ofNat (← Walk.frame).position then pure (some (.node (← up.current)))
      else pure none
    | d, _ =>
      if d.toBoolean (← Walk.store) then pure (some (.node (← up.current))) else pure none

/-- The node at a position that is given as a number. -/
def nodeAt (up : Motion) (x : Float) : Walk (Option Pointer) := do
  if Number.isWhole x && x >= 1 then
    if ← up.setPosition (Number.toIndex x) then up.current else pure none
  else pure none

/-- The next node that a predicate holds of. -/
def nextMatching (s : Surroundings) (up : Motion) (expr : Expr) (positional done : Bool) :
    Walk (Option Pointer) := do
  if done then pure none
  else
    match ← Walk.inEarlier .missing (Walk.repeatUntil (up.tryNext s expr positional)) with
    | .missing => pure none
    | .node p => pure p
    | .position x =>
      Walk.modifyFrame ({ · with stage := .condition expr positional true })
      Walk.inEarlier none (up.nodeAt x)

/-- The next node of the set that the last stage is in. -/
def produce (s : Surroundings) (up : Motion) : Walk (Option Pointer) := do
  let f ← Walk.frame
  match f.stage with
  | .start origin none => pure (if f.position == 0 then some origin else none)
  | .start _ (some members) => pure members[f.position]?
  | .known nodes _ => pure nodes[f.position]?
  | .axis axis test pending => up.nextAlong s axis test pending
  | .condition expr positional done => up.nextMatching s expr positional done

/-- Whether the last stage is in a set, after it entered the first one if it had not started. -/
def isInSet (up : Motion) : Walk Bool := do
  match (← Walk.frame).progress with
  | .exhausted => pure false
  | .notStarted => up.advanceSet
  | .inSet => pure true

/-- Goes to the next node of the set. -/
def advanceNode (s : Surroundings) (up : Motion) : Walk Bool := do
  if !(← up.isInSet) then return false
  match ← up.produce s with
  | none => pure false
  | some p =>
    Walk.modifyFrame fun f => { f with position := f.position + 1, current := some p }
    pure true

/-! ## §D  Positions -/

/-- The node at a position from one on, for a stage that knows its nodes. -/
def knownAt? (position : Nat) : Stage → Option (Option Pointer)
  | .start origin none => some (if position == 1 then some origin else none)
  | .start _ (some members) => some members[position - 1]?
  | .known nodes _ => some nodes[position - 1]?
  | _ => none

/-- Goes on to a position that is not behind. -/
def advanceTo (s : Surroundings) (up : Motion) (position : Nat) : Walk Bool :=
  Walk.repeatUntil do
    if (← Walk.frame).position < position then
      if ← up.advanceNode s then pure none else pure (some false)
    else pure (some true)

/-- Goes to a position. A stage that knows its nodes takes any position, also one without a node. -/
def moveTo (s : Surroundings) (up : Motion) (position : Nat) : Walk Bool := do
  let f ← Walk.frame
  if position == 0 then
    Walk.move Cursor.rewound
    pure true
  else
    match knownAt? position f.stage with
    | some found =>
      Walk.modifyFrame fun f =>
        { f with
          position, current := found
          progress := if f.progress == .notStarted then .inSet else f.progress }
      pure found.isSome
    | none =>
      if position == f.position then pure f.current.isSome
      else
        if position < f.position then Walk.move Cursor.rewound
        up.advanceTo s position

/-- The node at the position. -/
def nodeHere (s : Surroundings) (up : Motion) : Walk (Option Pointer) := do
  let f ← Walk.frame
  match f.stage with
  | .start origin none => pure (some origin)
  | _ =>
    if f.position == 0 then
      if !(← up.moveTo s 1) then return none
    pure (← Walk.frame).current

/-! ## §E  All motions -/

/-- How a cursor moves when the stages before its last one move as in `up`. -/
def next (s : Surroundings) (up : Motion) : Motion where
  nextSet := up.advanceSet
  nextNode := up.advanceNode s
  setPosition := up.moveTo s
  current := up.nodeHere s

/-- The motion of cursors with so many stages. -/
def ofLength (s : Surroundings) : Nat → Motion
  | 0 => still
  | n + 1 => (ofLength s n).next s

end Motion

/-- **motion** is the motion of a cursor. -/
def Cursor.motion (c : Cursor) (s : Surroundings) : Motion := .ofLength s (c.earlier.length + 1)

/-- Moves the cursor by the motion that fits it. -/
def Walk.moving {α : Type} (s : Surroundings) (m : Motion → Walk α) : Walk α := do
  m ((← Walk.cursor).motion s)

end NodePath
