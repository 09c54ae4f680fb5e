/-
# NodePath.Cursor.Delivery — the nodes of a cursor

What is done with a cursor by those who want nodes: one set as a list, the first node, all nodes at once, or
one node after the other. A cursor that delivers in document order has to know all its nodes before it can
deliver the first; all others go on only as far as they are asked.

* §A  The present set.
* §B  The first node.
* §C  All nodes at once.
* §D  One node after the other.
-/
import NodePath.Cursor.Motion

namespace NodePath.Motion

/-! ## §A  The present set -/

/-- **listSet** are all nodes of the present set; the position stays as it was. -/
def listSet (m : Motion) : Walk (List Pointer) := do
  let position := (← Walk.frame).position
  if position != 0 then Walk.move Cursor.rewound
  let nodes ← Walk.collectAll do
    if ← m.nextNode then pure (← Walk.frame).current else pure none
  let _ ← m.setPosition position
  pure nodes

/-! ## §B  The first node -/

/-- **first** is the first node across all sets, from the start on. -/
def first (m : Motion) : Walk (Option Pointer) := do
  Walk.move Cursor.restarted
  if ← m.enter then pure (← Walk.frame).current else pure none

/-! ## §C  All nodes -/

/-- Goes to the next node across sets. -/
def advance (m : Motion) : Walk Bool := do
  if (← Walk.frame).position != 0 then
    if ← m.nextNode then return true
  m.enter

/-- The next node across sets. -/
def pull (m : Motion) : Walk (Option Pointer) := do
  if ← m.advance then pure (← Walk.frame).current else pure none

/-- All nodes from the next set on. -/
def drain (m : Motion) : Walk (List Pointer) := do
  if !(← m.enter) then return []
  let head := (← Walk.frame).current
  pure (head.toList ++ (← Walk.collectAll m.pull))

/-- **nodeSet** are all nodes, sorted if the cursor delivers in document order. It is refused while nodes are
being delivered, and leaves the cursor at the start. -/
def nodeSet (m : Motion) : Walk (List Pointer) := do
  if (← Walk.frame).position != 0 then throw .concurrentIteration
  let order := (← Walk.cursor).order
  let drained ← Walk.attempt m.drain
  Walk.move Cursor.restarted
  let nodes ← Walk.ofExcept drained
  if order == .unordered then pure nodes
  else Walk.ofExcept (sortDistinct (← Walk.store) nodes order)

/-! ## §D  Node after node -/

/-- All nodes in document order. -/
def sortedNodes (m : Motion) (order : Order) : Walk (List Pointer) := do
  let nodes ← m.drain
  Walk.ofExcept (sortDistinct (← Walk.store) nodes order)

/-- Makes sure that the nodes of a cursor that delivers in document order are known. If they cannot be
found, there are none. -/
def prepare (m : Motion) : Walk Unit := do
  let order := (← Walk.cursor).order
  if (← Walk.frame).sorted.isNone && order != .unordered then
    match ← Walk.attempt (m.sortedNodes order) with
    | .ok nodes => Walk.modifyFrame ({ · with sorted := some nodes })
    | .error e =>
      Walk.modifyFrame ({ · with sorted := some [] })
      throw e

/-- **deliver** is the next node, in the order in which the cursor delivers them. -/
def deliver (m : Motion) : Walk (Option Pointer) := do
  m.prepare
  match (← Walk.frame).sorted with
  | some nodes =>
    Walk.modifyFrame ({ · with sorted := some (nodes.drop 1) })
    pure nodes.head?
  | none => m.pull

/-- **deliverAll** are all nodes that are left. -/
def deliverAll (m : Motion) : Walk (List Pointer) := Walk.collectAll m.deliver

/-- The nodes that are left up to the first error, and that error. At most so many nodes; they stand behind
those of `taken`, which holds them last first. -/
def deliverUpTo (m : Motion) : Nat → List Pointer → Walk (List Pointer × Option EvalError)
  | 0, taken => pure (taken.reverse, some (.evaluation .exhausted))
  | times + 1, taken => do
    match ← Walk.attempt m.deliver with
    | .ok (some p) => m.deliverUpTo times (p :: taken)
    | .ok none => pure (taken.reverse, none)
    | .error e => pure (taken.reverse, some e)

/-- **deliverRest** are the nodes that are left up to the first error, and that error. -/
def deliverRest (m : Motion) : Walk (List Pointer × Option EvalError) := m.deliverUpTo Walk.limit []

end NodePath.Motion
