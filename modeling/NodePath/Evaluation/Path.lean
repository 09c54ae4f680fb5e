/-
# NodePath.Evaluation.Path — the cursors of paths

A path is not evaluated but becomes a cursor: a start, and a stage for each step and each predicate.

* §A  Starts.
* §B  Location paths, and paths from the value of an expression.
-/
import NodePath.Evaluation.Basic

namespace NodePath

/-! ## §A  Starts -/

/-- The members of the array that a variable holds; there are none of anything else. -/
def Pointer.members? (p : Pointer) (st : Store) : Option (List Pointer) :=
  if p.isVariable then
    match p.openedValue st with
    | .object (.array _) => some (p.children st)
    | _ => none
  else none

/-- A cursor at a node, or over the members of a variable. -/
def Cursor.startAt (st : Store) (p : Pointer) : Cursor := ⟨.fresh (.start p (p.members? st)), []⟩

namespace Evaluator

/-- The cursor that the value of an expression starts: a node-set is one set in document order. -/
def startOf (ev : Evaluator) : Value → Eval Cursor
  | .nodes c => do
    let nodes ← ev.nodeSet c
    match sortDistinct (← get) nodes .ascending with
    | .ok nodes => pure (.ofNodes nodes .ascending)
    | .error e => throw e
  | .datum .null => pure .empty
  | .datum d => do
    let p ← Pointer.wrap d
    pure (.startAt (← get) p)

/-! ## §B  Paths -/

/-- The cursor of a location path. -/
def locationPath (ev : Evaluator) (m : Motion) (absolute : Bool) (steps : List Step) : Walk Cursor := do
  let start? ← if absolute then pure (some ev.context.rootPointer) else m.current
  let st ← Walk.store
  pure (((start?.map (Cursor.startAt st)).getD .empty).pushSteps steps)

/-- The cursor of a path from the value of an expression. -/
def filterPath (ev : Evaluator) (m : Motion) (head : Expr) (predicates : List Expr) (steps : List Step) :
    Walk Cursor := do
  let start ← ev.startOf (← ev.lazy m head)
  pure ((predicates.foldl Cursor.pushCondition start).pushSteps steps)

end Evaluator

end NodePath
