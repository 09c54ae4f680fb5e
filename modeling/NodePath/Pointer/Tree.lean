/-
# NodePath.Pointer.Tree — nodes of element trees

* §A  Names, kinds and values.
* §B  Children, attributes and declarations.
* §C  Namespaces and language, which are looked for upwards.
* §D  Paths and the order of children.
-/
import NodePath.Pointer.Basic

namespace NodePath.TreeRef

/-! ## §A  Names, kinds, values -/

/-- The element that the node, its attribute or its declaration belongs to. -/
def owner? (r : TreeRef) (f : Forest) : Option Element := f.element? r.node

/-- The element that is addressed itself. -/
def element? (r : TreeRef) (f : Forest) : Option Element :=
  if r.facet == .node then r.owner? f else none

/-- The name of the node. -/
def name (r : TreeRef) (f : Forest) : QName :=
  match r.facet with
  | .attr name => .ofWritten name
  | .declaration label _ => .plain label
  | .node =>
    match r.owner? f with
    | some e => .ofWritten e.name
    | none => .plain ""

/-- The kind of the node. -/
def kind (r : TreeRef) (f : Forest) : NodeKind :=
  match r.facet with
  | .attr _ => .attr
  | .declaration _ _ => .declaration
  | .node =>
    match r.owner? f with
    | none => .text
    | some _ => if r.above.isEmpty then .root else .element

/-- The value of an attribute of an element. -/
def attributeOf (e : Element) (name : String) : Option String :=
  (e.attributes.find? (·.1 == name)).map (·.2)

/-- The value of the node: of an element the text below it. -/
def value (r : TreeRef) (f : Forest) : Datum :=
  match r.facet with
  | .attr name =>
    match (r.owner? f).bind (attributeOf · name) with
    | some v => .text v
    | none => .null
  | .declaration _ address => .text address
  | .node => .text (f.content r.node)

/-- Whether the node is there; only an attribute can be missing. -/
def isActual (r : TreeRef) (f : Forest) : Bool :=
  match r.facet with
  | .attr name => ((r.owner? f).bind (attributeOf · name)).isSome
  | _ => true

/-- Whether the node has no children. -/
def isLeaf (r : TreeRef) (f : Forest) : Bool := (r.element? f).all (·.children.isEmpty)

/-! ## §B  Children, attributes, declarations -/

/-- The children of an element. -/
def children (r : TreeRef) (f : Forest) : List TreeRef :=
  match r.element? f with
  | some e => e.children.map r.child
  | none => []

/-- Whether an attribute declares a namespace. -/
def isDeclaring (name : String) : Bool := "xmlns".toList.isPrefixOf name.toList

/-- The attributes of an element that declare no namespace. -/
def attributes (r : TreeRef) (f : Forest) : List TreeRef :=
  match r.element? f with
  | some e => (e.attributes.filter (!isDeclaring ·.1)).map fun a => r.withFacet (.attr a.1)
  | none => []

/-- The namespace declarations of an element. -/
def declarations (r : TreeRef) (f : Forest) : List TreeRef :=
  match r.element? f with
  | some e => e.declarations.map fun d => r.withFacet (.declaration d.1 d.2)
  | none => []

/-! ## §C  Namespaces and language -/

/-- The first answer of the node's element and the nodes above it. -/
def findUpwards {α : Type} (r : TreeRef) (f : Forest) (look : Element → Option α) : Option α :=
  (r.node :: r.above).findSome? fun n => (f.element? n).bind look

/-- The address that a label stands for at the node. -/
def addressOf (r : TreeRef) (f : Forest) (label : String) : Option String :=
  r.findUpwards f fun e => (e.declarations.find? (·.1 == label)).map (·.2)

/-- The namespace of the node's own name. An attribute without a qualifier has none. -/
def namespaceUri (r : TreeRef) (f : Forest) : Option String :=
  match r.facet, (r.name f).qualifier with
  | .declaration _ _, _ => none
  | _, some q => r.addressOf f q
  | .attr _, none => none
  | .node, none => r.addressOf f ""

/-- The language that the node is in. -/
def language (r : TreeRef) (f : Forest) : Option String :=
  r.findUpwards f fun e => attributeOf e "xml:lang"

/-! ## §D  Paths and order -/

/-- Whether two nodes count together in a path: elements of one name, or texts. -/
def alike (f : Forest) (a b : NodeId) : Bool :=
  match f.element? a, f.element? b with
  | some x, some y => x.name == y.name
  | none, none => true
  | _, _ => false

/-- The step to a child of `parent`: its name and its position among those alike. -/
def childStep (f : Forest) (parent n : NodeId) : String :=
  let siblings := ((f.element? parent).map (·.children)).getD []
  let index := ((siblings.filter (alike f · n)).findIdx? (· == n)).getD 0
  let name :=
    match f.element? n with
    | some e => e.name
    | none => "text()"
  name ++ "[" ++ toString (index + 1) ++ "]"

/-- The path of a node given with the nodes above it. -/
def nodePath (f : Forest) (n : NodeId) : List NodeId → String
  | [] => "/"
  | parent :: above =>
    let start := nodePath f parent above
    (if start == "/" then "" else start) ++ "/" ++ childStep f parent n

/-- **pathText** is a path that leads to the node. -/
def pathText (r : TreeRef) (f : Forest) : String :=
  let node := nodePath f r.node r.above
  let start := if node == "/" then "" else node
  match r.facet with
  | .node => node
  | .attr name => start ++ "/@" ++ name
  | .declaration label _ => start ++ "/namespace::" ++ label

/-- The rank of a node among its siblings: declarations, then attributes, then children. -/
def rank (r : TreeRef) (f : Forest) : Nat × Nat :=
  match r.facet with
  | .declaration label _ =>
    (0, ((r.owner? f).bind fun e => e.declarations.findIdx? (·.1 == label)).getD 0)
  | .attr name => (1, ((r.owner? f).bind fun e => e.attributes.findIdx? (·.1 == name)).getD 0)
  | .node =>
    (2, ((r.above.head?.bind f.element?).bind fun e => e.children.findIdx? (· == r.node)).getD 0)

/-- Comparison of ranks. -/
def compareRanks (a b : Nat × Nat) : Ordering := (compare a.1 b.1).then (compare a.2 b.2)

end NodePath.TreeRef
