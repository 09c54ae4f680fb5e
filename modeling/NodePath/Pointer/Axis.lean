/-
# NodePath.Pointer.Axis — the nodes along an axis, and node tests

* §A  Siblings.
* §B  Descendants, in pre-order.
* §C  `Axis.nodes`: forward axes in document order, reverse axes nearest node first.
* §D  `NodeTest.accepts`.
-/
import NodePath.Expr.Basic
import NodePath.Pointer.Node

namespace NodePath

namespace Pointer

/-! ## §A  Siblings -/

/-- Whether a node stands among siblings; attributes and declarations do not. -/
def hasSiblings (p : Pointer) (st : Store) : Bool :=
  match p.kind st with
  | .attr => false
  | .declaration => false
  | _ => true

/-- The children of the node above one that stands among siblings. -/
def siblings (p : Pointer) (st : Store) : List Pointer :=
  if p.hasSiblings st then ((p.nodeParent?.map (·.children st)).getD []) else []

/-- The siblings behind a node, in order. -/
def siblingsAfter (p : Pointer) (st : Store) : List Pointer :=
  ((p.siblings st).dropWhile (· != p)).drop 1

/-- The siblings in front of a node, nearest first. -/
def siblingsBefore (p : Pointer) (st : Store) : List Pointer :=
  ((p.siblings st).takeWhile (· != p)).reverse

/-! ## §B  Descendants -/

/-- The nodes on at most `levels` levels below a node, each before those below it. -/
def descendantsFrom (st : Store) : Nat → Pointer → List Pointer
  | 0, _ => []
  | levels + 1, p => (p.children st).flatMap fun c => c :: descendantsFrom st levels c

/-- **descendants** are all nodes below a node, each before those below it. -/
def descendants (p : Pointer) (st : Store) : List Pointer := descendantsFrom st (p.levelsBelow st) p

/-- A node and all nodes below it, in pre-order. -/
def subtree (p : Pointer) (st : Store) : List Pointer := p :: p.descendants st

/-! ## §C  Axes -/

/-- The nodes that begin after a node ends. An attribute is followed by the content of its element. -/
def following (p : Pointer) (st : Store) : List Pointer :=
  let after (start : Pointer) : List Pointer :=
    (start :: start.nodesAbove).flatMap fun n => (n.siblingsAfter st).flatMap (·.subtree st)
  if p.hasSiblings st then after p
  else
    match p.nodeParent? with
    | some element => element.descendants st ++ after element
    | none => []

/-- The nodes that end before a node begins, nearest first. -/
def preceding (p : Pointer) (st : Store) : List Pointer :=
  let start? := if p.hasSiblings st then some p else p.nodeParent?
  match start? with
  | none => []
  | some start =>
    (start :: start.nodesAbove).flatMap fun n =>
      (n.siblingsBefore st).flatMap fun s => (s.subtree st).reverse

end Pointer

/-- **Axis.nodes** are the nodes along an axis, seen from `origin`. -/
def Axis.nodes (a : Axis) (origin : Pointer) (st : Store) : List Pointer :=
  match a with
  | .self => [origin]
  | .child => origin.children st
  | .attributes => origin.attributes st
  | .namespaces => origin.declarations st
  | .parent => origin.nodeParent?.toList
  | .ancestor => origin.nodesAbove
  | .ancestorOrSelf => origin :: origin.nodesAbove
  | .descendant => origin.descendants st
  | .descendantOrSelf => origin.subtree st
  | .followingSibling => origin.siblingsAfter st
  | .precedingSibling => origin.siblingsBefore st
  | .following => origin.following st
  | .preceding => origin.preceding st

/-! ## §D  Node tests -/

/-- Whether a node passes a test of its name. The qualifier of the test stands for an address, given by
`resolve`, and is compared with the namespace of the node; where the node has none, the qualifiers
themselves may agree instead. -/
def nameAccepts (test : QName) (resolve : String → Option String) (p : Pointer) (st : Store) : Bool :=
  let anyName := test.localName == "*"
  if anyName && test.qualifier.isNone then true
  else
    let name := p.name st
    if !anyName && test.localName != name.localName then false
    else
      let address := p.namespaceUri st
      test.qualifier.bind resolve == address || (address.isNone && test.qualifier == name.qualifier)

/-- Whether nodes of a kind have names that a test can ask for. -/
def NodeKind.isNamed : NodeKind → Bool
  | .element => true
  | .attr => true
  | .declaration => true
  | _ => false

/-- **NodeTest.accepts** says whether a node passes a test. -/
def NodeTest.accepts (t : NodeTest) (resolve : String → Option String) (p : Pointer) (st : Store) :
    Bool :=
  match t with
  | .type .node => true
  | .type .text => p.kind st == .text
  | .type .comment => p.kind st == .comment
  | .type .processingInstruction => p.kind st == .processingInstruction
  | .instruction target =>
    p.kind st == .processingInstruction && (p.name st).localName == target
  | .name n => !p.isContainer && (p.kind st).isNamed && nameAccepts n resolve p st

end NodePath
