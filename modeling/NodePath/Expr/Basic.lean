/-
# NodePath.Expr.Basic — expression trees

* §A  `Expr` and `Step`, the compiled form of an expression text.
* §B  The builders that do more than apply a constructor.
* §C  `size`, which bounds the recursion of an evaluation.
* §D  `isContextDependent`: whether a value can change with the context node, position or size.
* §E  `isSimplePath`: whether nodes can be created along an expression.
* §F  `same`, equality of trees with numbers compared as doubles.
* §G  Equality of trees is decidable.
-/
import NodePath.Expr.Vocabulary
import NodePath.Name
import NodePath.Numeral

namespace NodePath

/-! ## §A  Trees -/

/-- **NodeTest** selects nodes by name, by kind, or by the target of an instruction. The local name `*`
stands for any name. -/
inductive NodeTest where
  | name (name : QName)
  | type (type : NodeType)
  | instruction (target : String)
deriving Inhabited, Repr, DecidableEq

/-- Whether this is a test for any name. -/
def NodeTest.isWildcard : NodeTest → Bool
  | .name n => n.localName == "*"
  | _ => false

/-- A step of a path whose predicates are of type `ε`. -/
structure StepOf (ε : Type) where
  axis : Axis
  test : NodeTest
  predicates : List ε
deriving Inhabited, Repr

/-- **Expr** is an expression. -/
inductive Expr where
  | number (x : Float)
  | text (s : String)
  | operation (op : Operator) (args : List Expr)
  | var (name : QName)
  | core (function : CoreFunction) (args : List Expr)
  | call (name : QName) (args : List Expr)
  /-- A location path, from the root when it is absolute, else from the context node. -/
  | path (absolute : Bool) (steps : List (StepOf Expr))
  /-- A path that starts from the value of another expression. -/
  | filter (head : Expr) (predicates : List Expr) (steps : List (StepOf Expr))
deriving Inhabited, Repr

/-- **Step** is a step of a location path. -/
abbrev Step := StepOf Expr

namespace Expr

/-! ## §B  Builders -/

/-- The number that a text denotes. -/
def ofNumeral (s : String) : Expr := number (numberOfText s)

/-- An operation on two operands. -/
def binary (op : Operator) (left right : Expr) : Expr := operation op [left, right]

/-- A path from `head`; without predicates and steps it is `head` itself. -/
def filterOf (head : Expr) (predicates : List Expr) (steps : List Step) : Expr :=
  if predicates.isEmpty && steps.isEmpty then head else filter head predicates steps

/-! ## §C  Size -/

mutual
/-- **size** is the number of expressions in an expression, itself included. -/
def size : Expr → Nat
  | number _ => 1
  | text _ => 1
  | var _ => 1
  | operation _ args => sizeAll args + 1
  | core _ args => sizeAll args + 1
  | call _ args => sizeAll args + 1
  | path _ steps => sizeSteps steps + 1
  | filter head predicates steps => head.size + sizeAll predicates + sizeSteps steps + 1
termination_by structural e => e
/-- The size of some expressions together. -/
def sizeAll : List Expr → Nat
  | [] => 0
  | e :: es => e.size + sizeAll es
termination_by structural es => es
/-- The size of the predicates of some steps together. -/
def sizeSteps : List (StepOf Expr) → Nat
  | [] => 0
  | ⟨_, _, predicates⟩ :: steps => sizeAll predicates + sizeSteps steps
termination_by structural steps => steps
end

/-! ## §D  Dependence on the context -/

/-- The core functions that read the context node when they are given no argument. -/
def readsContextNode : CoreFunction → Bool
  | .boolean => true
  | .localName => true
  | .name => true
  | .namespaceUri => true
  | .string => true
  | .stringLength => true
  | .number => true
  | _ => false

mutual
/-- **isContextDependent** says whether the value of an expression may depend on the context node, its
position or the size of its set. -/
def isContextDependent : Expr → Bool
  | number _ => false
  | text _ => false
  | var _ => false
  | operation _ args => anyDependent args
  | core function args =>
    match function with
    | .last => true
    | .position => true
    | .lang => true
    | f =>
      if readsContextNode f && args.isEmpty then true
      else if f == .formatNumber && args.length == 2 then true
      else anyDependent args
  | call _ _ => true
  | path absolute steps => !absolute || anyStepDependent steps
  | filter head predicates steps =>
    head.isContextDependent || anyDependent predicates || anyStepDependent steps
termination_by structural e => e
/-- Whether one of some expressions depends on the context. -/
def anyDependent : List Expr → Bool
  | [] => false
  | e :: es => e.isContextDependent || anyDependent es
termination_by structural es => es
/-- Whether a predicate of one of some steps depends on the context. -/
def anyStepDependent : List (StepOf Expr) → Bool
  | [] => false
  | ⟨_, _, predicates⟩ :: steps => anyDependent predicates || anyStepDependent steps
termination_by structural steps => steps
end

/-! ## §E  Paths along which nodes can be created -/

end Expr

/-- Whether a step names one child or attribute, at most at one position that does not depend on the
context, or stays where it is. -/
def StepOf.isSimple (s : Step) : Bool :=
  let shape :=
    match s.axis, s.test with
    | .child, .name _ => !s.test.isWildcard
    | .attributes, .name _ => !s.test.isWildcard
    | .self, .type .node => s.predicates.isEmpty
    | _, _ => false
  shape && s.predicates.length ≤ 1 && !Expr.anyDependent s.predicates

namespace Expr

/-- **isSimplePath** says whether nodes can be created along an expression: a location path of simple
steps, or a variable with simple steps behind it. -/
def isSimplePath : Expr → Bool
  | path _ steps => steps.all StepOf.isSimple
  | filter (var _) predicates steps => predicates.isEmpty && steps.all StepOf.isSimple
  | var _ => true
  | _ => false

/-- Whether an expression selects nodes by a path, so that what it does not find is absent. -/
def isPath : Expr → Bool
  | path _ _ => true
  | filter _ _ _ => true
  | _ => false

/-! ## §F  Equality -/

/-- Whether two node tests are the same. -/
def sameTest : NodeTest → NodeTest → Bool
  | .name a, .name b => a == b
  | .type a, .type b => a == b
  | .instruction a, .instruction b => a == b
  | _, _ => false

mutual
/-- **same** is equality of trees; numbers are compared as doubles. -/
def same : Expr → Expr → Bool
  | number x, number y => x == y
  | text s, text t => s == t
  | var m, var n => m == n
  | operation o as, operation p bs => o == p && sameAll as bs
  | core f as, core g bs => f == g && sameAll as bs
  | call m as, call n bs => m == n && sameAll as bs
  | path a ss, path b ts => a == b && sameSteps ss ts
  | filter h ps ss, filter k qs ts => h.same k && sameAll ps qs && sameSteps ss ts
  | _, _ => false
termination_by structural e => e
/-- Equality of two lists of trees. -/
def sameAll : List Expr → List Expr → Bool
  | [], [] => true
  | a :: as, b :: bs => a.same b && sameAll as bs
  | _, _ => false
termination_by structural es => es
/-- Equality of two lists of steps. -/
def sameSteps : List (StepOf Expr) → List (StepOf Expr) → Bool
  | [], [] => true
  | ⟨a, t, ps⟩ :: ss, ⟨b, u, qs⟩ :: ts => a == b && sameTest t u && sameAll ps qs && sameSteps ss ts
  | _, _ => false
termination_by structural steps => steps
end

/-! ## §G  Decidable equality -/

mutual
/-- Whether two trees are equal; unlike `same`, this tells names of one written form apart, and zeros. -/
def isEqual : Expr → Expr → Bool
  | number x, number y => x = y
  | text s, text t => s = t
  | var m, var n => m = n
  | operation o as, operation p bs => o = p && allEqual as bs
  | core f as, core g bs => f = g && allEqual as bs
  | call m as, call n bs => m = n && allEqual as bs
  | path a ss, path b ts => a = b && stepsEqual ss ts
  | filter h ps ss, filter k qs ts => h.isEqual k && allEqual ps qs && stepsEqual ss ts
  | _, _ => false
termination_by structural e => e
/-- Whether two lists of trees are equal. -/
def allEqual : List Expr → List Expr → Bool
  | [], [] => true
  | a :: as, b :: bs => a.isEqual b && allEqual as bs
  | _, _ => false
termination_by structural es => es
/-- Whether two lists of steps are equal. -/
def stepsEqual : List (StepOf Expr) → List (StepOf Expr) → Bool
  | [], [] => true
  | ⟨a, t, ps⟩ :: ss, ⟨b, u, qs⟩ :: ts => a = b && t = u && allEqual ps qs && stepsEqual ss ts
  | _, _ => false
termination_by structural steps => steps
end

mutual
theorem isEqual_iff : ∀ a b : Expr, a.isEqual b = true ↔ a = b
  | number _, b => by cases b <;> simp [isEqual]
  | text _, b => by cases b <;> simp [isEqual]
  | var _, b => by cases b <;> simp [isEqual]
  | operation _ as, b => by cases b <;> simp [isEqual, allEqual_iff as]
  | core _ as, b => by cases b <;> simp [isEqual, allEqual_iff as]
  | call _ as, b => by cases b <;> simp [isEqual, allEqual_iff as]
  | path _ ss, b => by cases b <;> simp [isEqual, stepsEqual_iff ss]
  | filter h ps ss, b => by cases b <;> simp [isEqual, isEqual_iff h, allEqual_iff ps, stepsEqual_iff ss, and_assoc]
theorem allEqual_iff : ∀ as bs : List Expr, allEqual as bs = true ↔ as = bs
  | [], bs => by cases bs <;> simp [allEqual]
  | a :: as, bs => by cases bs <;> simp [allEqual, isEqual_iff a, allEqual_iff as]
theorem stepsEqual_iff : ∀ ss ts : List (StepOf Expr), stepsEqual ss ts = true ↔ ss = ts
  | [], ts => by cases ts <;> simp [stepsEqual]
  | ⟨_, _, ps⟩ :: ss, ts => by
    rcases ts with _ | ⟨⟨_, _, _⟩, _⟩ <;> simp [stepsEqual, allEqual_iff ps, stepsEqual_iff ss, and_assoc]
end

instance : DecidableEq Expr := fun a b => decidable_of_iff _ (isEqual_iff a b)

end Expr

instance decidableOutcome {ε α : Type} [DecidableEq ε] [DecidableEq α] : DecidableEq (Except ε α)
  | .ok a, .ok b => decidable_of_iff (a = b) (by simp)
  | .error e, .error f => decidable_of_iff (e = f) (by simp)
  | .ok _, .error _ => isFalse (by simp)
  | .error _, .ok _ => isFalse (by simp)

end NodePath
