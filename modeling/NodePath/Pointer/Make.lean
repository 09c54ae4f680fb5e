/-
# NodePath.Pointer.Make — objects become nodes

* §A  `make`: the node that the first factory to accept an object makes of it.
* §B  `wrap`: values as nodes.
-/
import NodePath.Pointer.Node

namespace NodePath.Pointer

/-! ## §A  Objects -/

/-- The node that a factory makes of an object named `name`. A document that is a value is stored first. -/
def makeBy (f : Factory) (name : QName) : Bean → Eval Pointer
  | .document doc => pure (json (.root doc none name))
  | .json j => do pure (json (.root (← Eval.change (·.addDocument j)) none name))
  | .tree top => pure (tree ⟨top, [], .node⟩)
  | .token tag => pure (absent (.plain (tag ++ "@" ++ toString f.order ++ "/" ++ name.written)))

/-- **make** is the node of an object named `name`. -/
def make (name : QName) (bean : Bean) : Eval Pointer := do
  match (← get).engine.registry.choose? bean with
  | some f => makeBy f name bean
  | none => throw (.unsupported (.noFactory name.written))

/-! ## §B  Values -/

/-- **wrap** is a value as a node; null is the absent node. -/
def wrap : Datum → Eval Pointer
  | .pointer p => pure p
  | .null => pure nothing
  | d => do make (.plain "") (.json (d.toJson (← get)))

end NodePath.Pointer
