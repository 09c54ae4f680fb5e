/-
# NodePath.Cursor.Basic — lazily produced node-sets

A path is a chain of stages, one for its start and one for each step and each predicate. A stage delivers
one *set* of nodes for each node that the stage before it delivers. A **Cursor** is the chain together with
how far each stage has come: it can be moved, moved back, and started again. Most node-sets are never asked
for more than their first node, so nothing is computed before a cursor is moved.

* §A  `Stage`, `Frame`, `Cursor`.
* §B  `Value`: a value at once, or a node-set still to be produced.
* §C  New cursors.
* §D  The order in which a cursor delivers nodes.
* §E  Starting a set, or everything, again.
-/
import NodePath.Expr.Basic
import NodePath.Pointer.Order

namespace NodePath

/-! ## §A  Cursors -/

/-- **Stage** says how a stage gets its nodes. -/
inductive Stage where
  /-- A single node, or the members of the array that a variable holds. -/
  | start (origin : Pointer) (members : Option (List Pointer))
  /-- Nodes that are known already. -/
  | known (nodes : List Pointer) (order : Order)
  /-- The nodes along an axis that pass a test; `pending` are those of the present set that have not
  been looked at. -/
  | axis (axis : Axis) (test : NodeTest) (pending : Option (List Pointer))
  /-- The nodes that a condition holds of. The value of a `positional` one does not depend on the node,
  so when it is a number it selects one position, and then nothing of the set is left: it is `done`. -/
  | condition (expr : Expr) (positional done : Bool)
deriving Inhabited

/-- How far a stage has come with its sets. -/
inductive Progress where
  | notStarted
  | inSet
  | exhausted
deriving DecidableEq, Repr, Inhabited

/-- **Frame** is a stage, how far it has come, its position in the present set (zero before the first
node) and the node there. `sorted` holds what is left of a node-set that had to be sorted to be
delivered. -/
structure Frame where
  stage : Stage
  position : Nat
  current : Option Pointer
  progress : Progress
  sorted : Option (List Pointer)
deriving Inhabited

/-- **Cursor** is the frame of the last stage and the frames before it, nearest first. -/
structure Cursor where
  frame : Frame
  earlier : List Frame
deriving Inhabited

/-! ## §B  Values -/

/-- **Value** is the value of an expression: a datum, or nodes that are still to be produced. -/
inductive Value where
  | datum (d : Datum)
  | nodes (c : Cursor)
deriving Inhabited

namespace Value

/-- The value of an expression that selects nothing. -/
def null : Value := datum .null

/-- A number. -/
def number (x : Float) : Value := datum (.number x)

/-- A text. -/
def text (s : String) : Value := datum (.text s)

/-- A truth value. -/
def boolean (b : Bool) : Value := datum (.boolean b)

/-- A node. -/
def pointer (p : Pointer) : Value := datum (.pointer p)

end Value

/-! ## §C  New cursors -/

/-- The frame of a stage that has not been asked yet. -/
def Frame.fresh (stage : Stage) : Frame := ⟨stage, 0, none, .notStarted, none⟩

namespace Cursor

/-- A cursor over known nodes. -/
def ofNodes (nodes : List Pointer) (order : Order) : Cursor := ⟨.fresh (.known nodes order), []⟩

/-- A cursor over no nodes. -/
def empty : Cursor := ofNodes [] .unordered

/-- The cursor with one more stage. -/
def push (c : Cursor) (stage : Stage) : Cursor := ⟨.fresh stage, c.frame :: c.earlier⟩

/-- The cursor with one more predicate. -/
def pushCondition (c : Cursor) (e : Expr) : Cursor :=
  c.push (.condition e (!e.isContextDependent) false)

/-- The cursor with one more step. -/
def pushStep (c : Cursor) (s : Step) : Cursor :=
  s.predicates.foldl pushCondition (c.push (.axis s.axis s.test none))

/-- The cursor with more steps. -/
def pushSteps (c : Cursor) (steps : List Step) : Cursor := steps.foldl pushStep c

/-! ## §D  Order -/

/-- Whether what follows a stage has to be sorted, when the stage itself delivers its nodes in `order`:
descendants of several nodes overlap, and an order once given is kept. -/
def Stage.sortsNext (stage : Stage) (order : Order) : Bool :=
  match stage with
  | .axis .descendant _ _ => true
  | .axis .descendantOrSelf _ _ => true
  | _ => order != .unordered

/-- The order in which the first of some frames, with the others before it, delivers nodes. -/
def orderOf : List Frame → Order
  | [] => .unordered
  | f :: fs =>
    match f.stage with
    | .start _ _ => .unordered
    | .known _ order => order
    | .axis .ancestor _ _ => .descending
    | .axis .ancestorOrSelf _ _ => .descending
    | .axis .preceding _ _ => .descending
    | .axis .following _ _ => .ascending
    | _ =>
      match fs with
      | [] => .unordered
      | g :: _ => if Stage.sortsNext g.stage (orderOf fs) then .ascending else .unordered

/-- **order** is the order in which a cursor delivers nodes across its sets. -/
def order (c : Cursor) : Order := orderOf (c.frame :: c.earlier)

/-- Whether what one more stage delivers has to be sorted. -/
def sortsNext (c : Cursor) : Bool := Stage.sortsNext c.frame.stage c.order

/-! ## §E  Starting again -/

/-- A stage before its first node. -/
def Stage.rewound : Stage → Stage
  | .axis axis test _ => .axis axis test none
  | .condition expr positional _ => .condition expr positional false
  | stage => stage

/-- A frame before the first node of its set. -/
def Frame.rewound (f : Frame) : Frame :=
  { f with stage := Stage.rewound f.stage, position := 0, current := none }

/-- Some frames with the last of them before the first node of its set. A predicate shares the set of the
stage before it, which goes back along with it. -/
def rewoundFrames : List Frame → List Frame
  | [] => []
  | f :: fs =>
    match f.stage with
    | .condition _ _ _ => Frame.rewound f :: rewoundFrames fs
    | _ => Frame.rewound f :: fs

/-- **rewound** is the cursor before the first node of the present set. -/
def rewound (c : Cursor) : Cursor :=
  match rewoundFrames (c.frame :: c.earlier) with
  | f :: fs => ⟨f, fs⟩
  | [] => c

/-- A frame that has not been asked yet. -/
def Frame.restarted (f : Frame) : Frame := .fresh (Stage.rewound f.stage)

/-- **restarted** is the cursor before everything. -/
def restarted (c : Cursor) : Cursor := ⟨Frame.restarted c.frame, c.earlier.map Frame.restarted⟩

end Cursor

end NodePath
