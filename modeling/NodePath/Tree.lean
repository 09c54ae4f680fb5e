/-
# NodePath.Tree — element trees with namespaces

The second kind of object graph next to documents: elements with namespace declarations, attributes
and children, and text between them. A **Tree** is such a tree as a value. While it is being worked on its
nodes live in a **Forest**, an array in which every node is known by its index, so that two pointers to one
node see each other's changes. A node is always planted before its children.

* §A  `Tree`.
* §B  `TreeNode` and `Forest`.
* §C  `plant`, a tree into a forest, and `harvest`, back.
* §D  Text content.
-/

namespace NodePath

/-! ## §A  Trees -/

/-- **Tree** is a text, or an element with its declarations (label and address), attributes (name and
value) and children. -/
inductive Tree where
  | text (content : String)
  | element (name : String) (declarations : List (String × String)) (attributes : List (String × String))
      (children : List Tree)
deriving Inhabited, Repr

/-! ## §B  Forests -/

/-- The index of a node. -/
abbrev NodeId := Nat

/-- An element whose children are known by their indices. -/
structure Element where
  name : String
  declarations : List (String × String)
  attributes : List (String × String)
  children : List NodeId
deriving Inhabited, Repr

/-- **TreeNode** is a node of a forest. -/
inductive TreeNode where
  | text (content : String)
  | element (e : Element)
deriving Inhabited, Repr

/-- **Forest** holds the nodes of all trees. -/
abbrev Forest := Array TreeNode

namespace Forest

/-- The element at an index. -/
def element? (f : Forest) (n : NodeId) : Option Element :=
  match f[n]? with
  | some (.element e) => some e
  | _ => none

/-- The forest with another node at an index. -/
def put (f : Forest) (n : NodeId) (node : TreeNode) : Forest := f.setIfInBounds n node

/-! ## §C  Planting and harvesting -/

mutual
/-- **plant** puts a tree into a forest and answers the index of its root. -/
def plant (f : Forest) : Tree → Forest × NodeId
  | .text content => (f.push (.text content), f.size)
  | .element name declarations attributes children =>
    let here := f.size
    let (f, ids) := plantAll (f.push (.element ⟨name, declarations, attributes, []⟩)) children
    (f.put here (.element ⟨name, declarations, attributes, ids⟩), here)
termination_by structural t => t
/-- Plants some trees one after the other. -/
def plantAll (f : Forest) : List Tree → Forest × List NodeId
  | [] => (f, [])
  | t :: ts =>
    let (f, n) := plant f t
    let (f, ns) := plantAll f ts
    (f, n :: ns)
termination_by structural ts => ts
end

/-- The tree below a node, at most `depth` levels of it. -/
def harvestFrom (f : Forest) : Nat → NodeId → Tree
  | 0, _ => .text ""
  | depth + 1, n =>
    match f[n]? with
    | none => .text ""
    | some (.text content) => .text content
    | some (.element e) => .element e.name e.declarations e.attributes (e.children.map (harvestFrom f depth))

/-- **harvest** is the tree below a node. No chain of children is longer than the forest is large. -/
def harvest (f : Forest) (n : NodeId) : Tree := harvestFrom f f.size n

/-! ## §D  Text content -/

/-- The text below a node, from at most `depth` levels. -/
def contentFrom (f : Forest) : Nat → NodeId → String
  | 0, _ => ""
  | depth + 1, n =>
    match f[n]? with
    | none => ""
    | some (.text content) => content
    | some (.element e) => String.join (e.children.map (contentFrom f depth))

/-- **content** is all text below a node, in order. -/
def content (f : Forest) (n : NodeId) : String := contentFrom f f.size n

end Forest

end NodePath
