/-
# NodePath.Evaluation.Operation — the values of operations

* §A  Logic, which stops at the first operand that decides.
* §B  Arithmetic.
* §C  Comparison, where node-sets are looked at as a whole.
* §D  Unions.
* §E  The dispatch.
-/
import NodePath.Comparison
import NodePath.Evaluation.Basic
import NodePath.Shown

namespace NodePath.Evaluator

/-! ## §A  Logic -/

/-- Whether the truth value of some operand is `decisive`. -/
def anyIs (ev : Evaluator) (m : Motion) (decisive : Bool) : List Expr → Walk Bool
  | [] => pure false
  | e :: es => do
    if (← ev.truth m e) == decisive then pure true else anyIs ev m decisive es

/-! ## §B  Arithmetic -/

/-- The sum of the operands and `total`. -/
def sumOf (ev : Evaluator) (m : Motion) (total : Float) : List Expr → Walk Float
  | [] => pure total
  | e :: es => do sumOf ev m (total + (← ev.double m e)) es

/-- The function of an operator on two numbers. -/
def arithmetic : Operator → Option (Float → Float → Float)
  | .minus => some (· - ·)
  | .multiply => some (· * ·)
  | .divide => some (· / ·)
  | .modulo => some Number.remainder
  | _ => none

/-! ## §C  Comparison -/

/-- A value as a side of a comparison. -/
def sideOf (ev : Evaluator) : Value → Eval Operand
  | .nodes c => do
    let ps ← ev.nodeSet c
    pure (.ofNodes (← get) ps)
  | .datum d => do pure (.ofDatum (← get) d)

/-- The value of an operation on two values. -/
def onBoth (ev : Evaluator) (op : Operator) (l r : Value) : Eval Datum := do
  match arithmetic op with
  | some f =>
    let a ← ev.firstOf l
    let b ← ev.firstOf r
    let st ← get
    pure (.number (f (a.toDouble st) (b.toDouble st)))
  | none =>
    let a ← ev.sideOf l
    let b ← ev.sideOf r
    match Operand.compareBy (← get) op a b with
    | some holds => pure (.boolean holds)
    | none => throw (.evaluation (.notBinary op.symbol))

/-! ## §D  Unions -/

/-- The nodes of an operand of a union. -/
def unionNodes (ev : Evaluator) (m : Motion) (e : Expr) : Walk (List Pointer) := do
  match ← ev.lazy m e with
  | .nodes c => ev.nodeSet c
  | .datum (.pointer p) => pure [p]
  | .datum .null => pure []
  | .datum d => throw (.evaluation (.notANodeSet d.shown))

/-- The union of the operands, in document order. -/
def unionOf (ev : Evaluator) (m : Motion) (args : List Expr) : Walk Cursor := do
  let parts ← args.mapM (ev.unionNodes m)
  let nodes ← Walk.ofExcept (sortDistinct (← Walk.store) parts.flatten .ascending)
  pure (.ofNodes nodes .ascending)

/-! ## §E  Operations -/

/-- **operation** is the value of an operation. -/
def operation (ev : Evaluator) (m : Motion) (op : Operator) (args : List Expr) : Walk Value := do
  match op, args with
  | .and, args => pure (.boolean !(← ev.anyIs m false args))
  | .or, args => pure (.boolean (← ev.anyIs m true args))
  | .union, args => pure (.nodes (← ev.unionOf m args))
  | .negate, e :: _ => pure (.number (-(← ev.double m e)))
  | .negate, [] => throw (.evaluation .negationOperand)
  | .sum, args => pure (.number (← ev.sumOf m 0 args))
  | op, [l, r] =>
    let l ← ev.lazy m l
    let r ← ev.lazy m r
    pure (.datum (← ev.onBoth op l r))
  | _, args => throw (.evaluation (.operandCount args.length))

end NodePath.Evaluator
