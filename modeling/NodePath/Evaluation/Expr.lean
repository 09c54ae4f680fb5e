/-
# NodePath.Evaluation.Expr — the values of expressions

* §A  `Evaluator.next`: an evaluator that is one level deeper than another.
* §B  `Setting.evaluator`: the evaluator that is deep enough for an expression, and the surroundings in which it
  moves cursors.
* §C  What an expression comes to at a node: one value, all values, all nodes.

An expression is as deep as it has expressions in it, so that going from an expression to its operands always
leaves at least one expression behind. The predicates of a path are expressions of their own: their evaluation
moves cursors in surroundings that are one level less deep.
-/
import NodePath.Evaluation.CoreFunction
import NodePath.Evaluation.Operation
import NodePath.Evaluation.Path

namespace NodePath

namespace Evaluator

/-! ## §A  One more level -/

/-- The first node of a path, as a value. -/
def firstNode (ev : Evaluator) (path : Walk Cursor) : Walk Value := do
  pure (.datum (← ev.firstOf (.nodes (← path))))

/-- The value of an expression, with the values of the expressions in it from `ev`. -/
def valueOf (ev : Evaluator) (m : Motion) : Expr → Walk Value
  | .number x => pure (.number x)
  | .text s => pure (.text s)
  | .var name => do
    match ev.context.variableValue? (← Walk.store) name with
    | some d => pure (.datum d)
    | none => throw (.undefinedVariable name.written)
  | .operation op args => ev.operation m op args
  | .core f args => ev.callCore m f args
  | .call name args => ev.callFunction m name args
  | .path absolute steps => ev.firstNode (ev.locationPath m absolute steps)
  | .filter head predicates steps => ev.firstNode (ev.filterPath m head predicates steps)

/-- The value in which node-sets are cursors and variables are nodes. -/
def lazyValueOf (ev : Evaluator) (m : Motion) : Expr → Walk Value
  | .var name => do pure (.pointer (.var (ev.context.variableRef (← Walk.store) name)))
  | .path absolute steps => do pure (.nodes (← ev.locationPath m absolute steps))
  | .filter head predicates steps => do pure (.nodes (← ev.filterPath m head predicates steps))
  | e => ev.valueOf m e

/-- The evaluator that knows the values of expressions one level deeper than `ev` does. -/
def next (ev : Evaluator) : Evaluator where
  setting := ev.setting
  surroundings := ev.surroundings
  lazy := ev.lazyValueOf
  value := ev.valueOf

end Evaluator

namespace Setting

/-! ## §B  Deep enough -/

/-- The evaluator for so many levels of operands, which moves cursors in some surroundings. -/
def evaluatorTo (s : Setting) (around : Surroundings) : Nat → Evaluator
  | 0 => .idle s around
  | depth + 1 => (s.evaluatorTo around depth).next

/-- What stages ask for, with the predicates of so many levels of paths inside of predicates. -/
def surroundingsTo (s : Setting) : Nat → Surroundings
  | 0 => ⟨s.context.addressOf, fun _ _ => throw (.evaluation .exhausted)⟩
  | depth + 1 => {
      resolve := s.context.addressOf
      test m e := do
        let ev := s.evaluatorTo (s.surroundingsTo depth) e.size
        ev.firstOf (← ev.value m e) }

/-- **surroundings** are what stages ask for: no expression in memory is nested as deep. -/
@[irreducible] def surroundings (s : Setting) : Surroundings := s.surroundingsTo Walk.limit

/-- What stages of paths inside of predicates ask for: there is one level less. -/
@[irreducible] def inner (s : Setting) : Surroundings := s.surroundingsTo (Walk.limit - 1)

/-- The evaluator for an expression that is a predicate. -/
def predicateEvaluator (s : Setting) (e : Expr) : Evaluator := s.evaluatorTo s.inner e.size

/-- **evaluator** is the evaluator for an expression. -/
def evaluator (s : Setting) (e : Expr) : Evaluator := s.evaluatorTo s.surroundings e.size

/-! ## §C  What an expression comes to -/

/-- A cursor at the context node. -/
def start (s : Setting) : Eval Cursor := do pure (.startAt (← get) s.context.contextPointer)

/-- The lazy value of an expression at the context node. -/
def compute (s : Setting) (e : Expr) : Eval Value := do
  (s.evaluator e).on (← s.start) ((s.evaluator e).lazy · e)

/-- The plain value of an expression at the context node. -/
def computeValue (s : Setting) (e : Expr) : Eval Value := do
  (s.evaluator e).on (← s.start) ((s.evaluator e).value · e)

/-- The values in a value: the elements of an array, or the value itself. -/
def expand : Datum → List Datum
  | .object (.array items) => items.map Datum.ofJson
  | d => [d]

/-- Answers up to the first error, and that error. -/
abbrev Delivered (α : Type) := List α × Option EvalError

/-- All values of an expression: those of the nodes of a node-set, else those in its value. -/
def values (s : Setting) (e : Expr) : Eval (Delivered Datum) := do
  match ← s.compute e with
  | .nodes c => do
    let (ps, error) ← (s.evaluator e).on c Motion.deliverRest
    let st ← get
    pure (ps.map (·.openedValue st), error)
  | .datum (.pointer p) => do pure (expand (p.openedValue (← get)), none)
  | .datum d => pure (expand d, none)

/-- All nodes of an expression: the nodes of a node-set, else its value as a node, or none for null. -/
def pointers (s : Setting) (e : Expr) : Eval (Delivered Pointer) := do
  match ← s.compute e with
  | .nodes c => (s.evaluator e).on c Motion.deliverRest
  | .datum .null => pure ([], none)
  | .datum d => do pure ([← Pointer.wrap d], none)

end Setting

end NodePath
