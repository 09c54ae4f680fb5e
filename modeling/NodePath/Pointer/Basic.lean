/-
# NodePath.Pointer.Basic — nodes and values

A **Pointer** addresses a node of some object graph. There are four kinds: places in documents, nodes of
element trees, variables, and nodes that do not exist. A pointer only says where to look; what is found
there is a matter of the store, and changes with it.

* §A  The four kinds.
* §B  Equality: two pointers are equal when they address one node, however each was reached.
* §C  `Datum`, the values that nodes and variables have.
* §D  Names, kinds and parents, which need no store.
-/
import NodePath.Engine.Factory
import NodePath.Json.Location
import NodePath.Name

namespace NodePath

/-! ## §A  Kinds of pointers -/

/-- The index of a set of variables in the store. -/
abbrev ScopeId := Nat

/-- A variable by name, and the set of variables that declares it, if one does. -/
structure VarRef where
  name : QName
  scope : Option ScopeId
deriving Inhabited, Repr

/-- A place in a document. `base` is the variable that holds the document, if one does; paths are then
reported from it. A place is also an attribute when `asAttribute` is set. -/
structure JsonRef where
  doc : DocId
  path : List Segment
  asAttribute : Bool
  base : Option VarRef
  rootName : QName
deriving Inhabited, Repr

/-- What of a tree node is addressed: the node, an attribute, or a namespace declaration. -/
inductive Facet where
  | node
  | attr (name : String)
  | declaration (label address : String)
deriving DecidableEq, Repr, Inhabited

/-- A node of a forest with the nodes above it, nearest first. -/
structure TreeRef where
  node : NodeId
  above : List NodeId
  facet : Facet
deriving Inhabited, Repr

/-- **Pointer** addresses a node. -/
inductive Pointer where
  | json (r : JsonRef)
  | tree (r : TreeRef)
  | var (v : VarRef)
  /-- A node that does not exist, under no other. -/
  | absent (name : QName)
  /-- A node that does not exist, under `parent`. -/
  | absentUnder (parent : Pointer) (name : QName)
deriving Inhabited, Repr

/-! ## §B  Equality -/

/-- Whether two references are to one variable of one set. -/
def VarRef.same (a b : VarRef) : Bool := a.name == b.name && a.scope == b.scope

/-- Whether two references are to one place of one document. -/
def JsonRef.same (a b : JsonRef) : Bool :=
  a.doc == b.doc && a.path == b.path && a.asAttribute == b.asAttribute

/-- Whether two references are to one facet of one node. -/
def TreeRef.same (a b : TreeRef) : Bool := a.node == b.node && a.facet == b.facet

namespace Pointer

/-- **same** is equality of the nodes addressed. -/
def same : Pointer → Pointer → Bool
  | json a, json b => a.same b
  | tree a, tree b => a.same b
  | .var a, .var b => a.same b
  | absent m, absent n => m == n
  | absentUnder p m, absentUnder q n => m == n && p.same q
  | _, _ => false

instance : BEq Pointer := ⟨same⟩

end Pointer

/-! ## §C  Values -/

/-- **Datum** is the value of a node or a variable: a scalar of the expression language, a document as it
stands, which is an array or an object unless a variable holds it, or a node. -/
inductive Datum where
  | null
  | boolean (b : Bool)
  | number (x : Float)
  | text (s : String)
  | object (j : Json)
  | pointer (p : Pointer)
deriving Inhabited, Repr

/-- The value that a part of a document is. -/
def Datum.ofJson : Json → Datum
  | .null => .null
  | .bool b => .boolean b
  | .int i => .number (Number.ofInt i)
  | .double x => .number x
  | .text s => .text s
  | .array items => .object (.array items)
  | .object members => .object (.object members)

/-! ## §D  Names, kinds, parents -/

/-- **NodeKind** is the kind of a node. -/
inductive NodeKind where
  | root
  | element
  | attr
  | text
  | comment
  | processingInstruction
  | declaration
deriving DecidableEq, Repr, Inhabited

namespace JsonRef

/-- The whole document. -/
def root (doc : DocId) (base : Option VarRef) (name : QName) : JsonRef := ⟨doc, [], false, base, name⟩

/-- Another place in the same document. -/
def move (r : JsonRef) (path : List Segment) (asAttribute : Bool) : JsonRef :=
  { r with path, asAttribute }

/-- A place below this one. -/
def below (r : JsonRef) (more : List Segment) (asAttribute : Bool) : JsonRef :=
  r.move (r.path ++ more) asAttribute

/-- The name that a place has from the end of its path, given in reverse: the elements of an array that
is a member have the name of the member, all other elements have none. -/
def nameOf : List Segment → Option QName
  | [] => none
  | .key k :: _ => some (.ofWritten k)
  | .index _ :: .key k :: _ => some (.ofWritten k)
  | .index _ :: _ => some (.plain "")

/-- The name of the node. -/
def name (r : JsonRef) : QName :=
  match nameOf r.path.reverse with
  | some n => n
  | none =>
    match r.base with
    | some v => v.name
    | none => r.rootName

/-- The path of the parent, for a path given in reverse: the elements of an array that is a member
belong to the object, not to the array. -/
def parentPath : List Segment → List Segment
  | [] => []
  | .index _ :: .key _ :: path => path
  | _ :: path => path

/-- The parent: a place of the document, or above its top the variable that holds it. -/
def parent? (r : JsonRef) : Option Pointer :=
  if r.path.isEmpty then r.base.map .var
  else if r.asAttribute then some (.json (r.move r.path.dropLast false))
  else some (.json (r.move (parentPath r.path.reverse).reverse false))

/-- The kind of the node. -/
def kind (r : JsonRef) : NodeKind :=
  if r.asAttribute then .attr
  else if r.path.isEmpty && r.base.isNone then .root
  else .element

end JsonRef

namespace TreeRef

/-- The node that an attribute or a declaration belongs to, or else the node above. -/
def parent? (r : TreeRef) : Option TreeRef :=
  match r.facet, r.above with
  | .node, [] => none
  | .node, n :: above => some ⟨n, above, .node⟩
  | _, above => some ⟨r.node, above, .node⟩

/-- A child of this node. -/
def child (r : TreeRef) (n : NodeId) : TreeRef := ⟨n, r.node :: r.above, .node⟩

/-- The node itself with another facet. -/
def withFacet (r : TreeRef) (facet : Facet) : TreeRef := { r with facet := facet }

end TreeRef

namespace Pointer

/-- The absent node without a name. -/
def nothing : Pointer := absent (.plain "")

/-- The parent of a node, which may be a variable. -/
def parent? : Pointer → Option Pointer
  | json r => r.parent?
  | tree r => r.parent?.map tree
  | .var _ => none
  | absent _ => none
  | absentUnder p _ => some p

/-- Whether a node is a variable. -/
def isVariable : Pointer → Bool
  | .var _ => true
  | _ => false

/-- Whether a node is only a container of the node it opens onto. Variables are. -/
def isContainer (p : Pointer) : Bool := p.isVariable

/-- The nearest node above that is no container. -/
def nodeParent? (p : Pointer) : Option Pointer := p.parent?.filter (!·.isContainer)

/-- A bound on the length of the chain of parents. -/
def depth : Pointer → Nat
  | json r => r.path.length + 2
  | tree r => r.above.length + 2
  | .var _ => 1
  | absent _ => 1
  | absentUnder p _ => p.depth + 1

/-- At most `fuel` steps of a chain that begins with `p?`. -/
def chainFrom (next : Pointer → Option Pointer) : Nat → Option Pointer → List Pointer
  | 0, _ => []
  | _ + 1, none => []
  | fuel + 1, some p => p :: chainFrom next fuel (next p)

/-- The nodes above a node, nearest first, containers included. -/
def above (p : Pointer) : List Pointer := chainFrom parent? p.depth p.parent?

/-- The nodes above a node, nearest first, without containers. -/
def nodesAbove (p : Pointer) : List Pointer := chainFrom nodeParent? p.depth p.nodeParent?

/-- A node and the nodes above it, topmost first. -/
def ancestry (p : Pointer) : List Pointer := (p :: p.above).reverse

/-- The topmost node above a node, or the node itself. -/
def top (p : Pointer) : Pointer := (p :: p.above).getLast?.getD p

end Pointer

end NodePath
