/-
# NodePath.Comparison — when two values compare

A node-set and an array compare by their members: a comparison holds when it holds of one member, or of one
pair when both sides have members. So `=` and `!=` may both hold, or neither. What the two sides are converted
to depends on both: truth values come first, then numbers, then texts.

* §A  `Operand`: members, or one value.
* §B  Equality.
* §C  Order.
* §D  `compareBy`, the comparison of an operator.
-/
import NodePath.Coercion
import NodePath.Expr.Vocabulary

namespace NodePath

/-! ## §A  Operands -/

/-- **Operand** is one side of a comparison. -/
inductive Operand where
  | members (ds : List Datum)
  | single (d : Datum)
deriving Inhabited

namespace Operand

/-- A value that is no node; an array has its elements as members. -/
def spread : Datum → Operand
  | .object (.array items) => members (items.map Datum.ofJson)
  | d => single d

/-- A value. A node stands for what it opens onto, and one that does not exist has no members. -/
def ofDatum (st : Store) : Datum → Operand
  | .pointer p => if p.isOpenedActual st then spread (p.openedValue st) else members []
  | d => spread d

/-- The nodes of a node-set by their values. -/
def ofNodes (st : Store) (ps : List Pointer) : Operand := members (ps.map (·.openedValue st))

/-- Whether a relation holds between the operands, members standing for themselves. -/
def relates (holds : Datum → Datum → Bool) : Operand → Operand → Bool
  | members as, members bs => as.any fun a => bs.any fun b => holds a b
  | members as, single b => as.any fun a => holds a b
  | single a, members bs => bs.any fun b => holds a b
  | single a, single b => holds a b

end Operand

/-! ## §B  Equality -/

namespace Datum

/-- Whether a value is a truth value. -/
def isTruth : Datum → Bool
  | boolean _ => true
  | _ => false

/-- Whether a value is a number. -/
def isNumber : Datum → Bool
  | number _ => true
  | _ => false

/-- Whether two values are equal, or differ if `differ` is set. Neither holds of what is no number. -/
def alike (st : Store) (differ : Bool) (a b : Datum) : Bool :=
  if a.isTruth || b.isTruth then (a.toBoolean st == b.toBoolean st) != differ
  else if a.isNumber || b.isNumber then
    let x := a.toDouble st
    let y := b.toDouble st
    if x.isNaN || y.isNaN then false else (x == y) != differ
  else (a.toText st == b.toText st) != differ

end Datum

namespace Operand

/-- Whether two operands are equal, or differ if `differ` is set. Against a truth value, members count by
whether there are any. -/
def alike (st : Store) (differ : Bool) : Operand → Operand → Bool
  | members as, single (.boolean b) => (!as.isEmpty == b) != differ
  | single (.boolean b), members as => (!as.isEmpty == b) != differ
  | a, b => relates (Datum.alike st differ) a b

/-! ## §C  Order -/

/-- Whether the operands compare as numbers by `test`. -/
def inOrder (st : Store) (test : Float → Float → Bool) (a b : Operand) : Bool :=
  relates (fun x y => test (x.toDouble st) (y.toDouble st)) a b

/-! ## §D  Operators -/

/-- **compareBy** is the comparison that an operator makes, if it makes one. -/
def compareBy (st : Store) (op : Operator) (a b : Operand) : Option Bool :=
  match op with
  | .equal => some (alike st false a b)
  | .notEqual => some (alike st true a b)
  | .less => some (inOrder st (fun x y => x < y) a b)
  | .lessOrEqual => some (inOrder st (fun x y => x <= y) a b)
  | .greater => some (inOrder st (fun x y => x > y) a b)
  | .greaterOrEqual => some (inOrder st (fun x y => x >= y) a b)
  | _ => none

end Operand

end NodePath
