/-
# NodePath.Engine.Factory — who makes a node of an object

An object from outside becomes a node through a **Factory**. Each has an order; they are asked in
ascending order, and among equal orders in the order in which they were registered. The first that accepts
the object makes the node.

* §A  `Bean` and `Maker`: the objects, and what a factory accepts.
* §B  `Registry`: adding, removing, and the order of consultation.
-/
import NodePath.Json.Basic
import NodePath.Tree

namespace NodePath

/-! ## §A  Objects and factories -/

/-- The index of a document in the store. -/
abbrev DocId := Nat

/-- **Bean** is an object from outside. -/
inductive Bean where
  /-- A document that others share. -/
  | document (doc : DocId)
  /-- A document as a value, which is copied. -/
  | json (j : Json)
  /-- A tree by the node at its top. -/
  | tree (top : NodeId)
  /-- An object without structure, known by a tag. -/
  | token (tag : String)
deriving Inhabited, Repr

/-- **Maker** is what a factory accepts and makes nodes of. -/
inductive Maker where
  | documents
  | trees
  /-- Tokens with this tag; the node is an absent one named after the factory. -/
  | tokens (tag : String)
deriving DecidableEq, Repr, Inhabited

/-- Whether an object is accepted. -/
def Maker.accepts : Maker → Bean → Bool
  | documents, .document _ => true
  | documents, .json _ => true
  | trees, .tree _ => true
  | tokens tag, .token t => t == tag
  | _, _ => false

/-- **Factory** is a maker with its place in the order. Two factories are the same when their numbers
are. -/
structure Factory where
  number : Nat
  order : Int
  maker : Maker
deriving DecidableEq, Repr, Inhabited

/-- The order of the factory for documents. -/
def documentOrder : Int := 800

/-- The order of the factory for trees. -/
def treeOrder : Int := 100

/-! ## §B  The registry -/

/-- **Registry** holds the factories in the order in which they were registered. -/
structure Registry where
  nextNumber : Nat
  factories : List Factory
deriving Inhabited, Repr

namespace Registry

/-- No factory. -/
def empty : Registry := ⟨0, []⟩

/-- Registers a new factory and answers it. -/
def add (r : Registry) (order : Int) (maker : Maker) : Registry × Factory :=
  let f : Factory := ⟨r.nextNumber, order, maker⟩
  (⟨r.nextNumber + 1, r.factories ++ [f]⟩, f)

/-- Takes every registration of a factory out, and says whether there was one. -/
def remove (r : Registry) (number : Nat) : Registry × Bool :=
  let rest := r.factories.filter (·.number != number)
  ({ r with factories := rest }, rest.length != r.factories.length)

/-- A factory put in front of the first one with a greater order. -/
def place (f : Factory) : List Factory → List Factory
  | [] => [f]
  | g :: gs => if f.order < g.order then f :: g :: gs else g :: place f gs

/-- **ordered** are the factories in the order in which they are asked. -/
def ordered (r : Registry) : List Factory := r.factories.foldl (fun fs f => place f fs) []

/-- The first factory that accepts an object. -/
def choose? (r : Registry) (bean : Bean) : Option Factory := r.ordered.find? (·.maker.accepts bean)

end Registry

end NodePath
