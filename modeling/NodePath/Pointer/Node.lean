/-
# NodePath.Pointer.Node — what a pointer shows of its node

Every question about a node is answered here for all kinds of pointers, from the store.

* §A  Opening variables: a variable stands for the node it holds, and a chain of variables that hold one
  another is followed to its end.
* §B  Presence and value.
* §C  Relatives.
* §D  Names, namespaces, language.
* §E  Paths.
* §F  `open`, which makes the node that a variable with a plain value opens onto.
-/
import NodePath.Pointer.Json
import NodePath.Pointer.Tree
import NodePath.Store

namespace NodePath

/-! ## §A  Opening -/

/-- **Opening** is what is inside a container. -/
inductive Opening where
  /-- Nothing: the node stands for itself. -/
  | shut
  /-- Another node. -/
  | onto (p : Pointer)
  /-- A shared document. -/
  | onDocument (doc : DocId)
  /-- A plain value, which becomes a document when it is needed as a node. -/
  | onCopy (j : Json)
deriving Inhabited

/-- A scalar as a document; an infinity and the value that is no number become null. -/
def Datum.scalarJson : Datum → Json
  | .null => .null
  | .boolean b => .bool b
  | .number x => .ofFloat x
  | .text s => .text s
  | .object j => j
  | .pointer _ => .null

namespace Pointer

/-- What is directly inside a node. Only a declared variable has something inside, and values that are no
nodes only when documents can become nodes. -/
def opening (p : Pointer) (st : Store) : Opening :=
  match p with
  | var v =>
    match st.slot? v with
    | none => .shut
    | some (.value (.pointer q)) => .onto q
    | some (.document doc) => if st.engine.opensDocuments then .onDocument doc else .shut
    | some (.value d) => if st.engine.opensDocuments then .onCopy d.scalarJson else .shut
  | _ => .shut

/-- Follows at most `fuel` variables that hold other nodes. A variable that holds itself is the end. -/
def followFrom (st : Store) : Nat → Pointer → Pointer
  | 0, p => p
  | fuel + 1, p =>
    match p.opening st with
    | .onto q => if q == p then p else followFrom st fuel q
    | _ => p

/-- How many variables are followed at most. That is more than there are: only variables that hold one another in a
ring are followed so far. They have no last node, and following them is to take longer than anybody waits. -/
def patience (st : Store) : Nat := Nat.pow 2 62 + st.variableCount

/-- The last node of the chain of variables that begins at a node. -/
def follow (p : Pointer) (st : Store) : Pointer := p.followFrom st (patience st + 1)

/-- The document that a variable opens onto, as a node. -/
def documentOf (p : Pointer) (doc : DocId) : Pointer :=
  match p with
  | var v => json (.root doc (some v) v.name)
  | _ => json (.root doc none (.plain ""))

/-! ## §B  Presence and value -/

/-- Whether the node itself exists. -/
def isActual (p : Pointer) (st : Store) : Bool :=
  match p with
  | json r => (st.at? r.doc r.path).isSome
  | tree r => r.isActual st.forest
  | var v => (st.slot? v).isSome
  | absent _ => false
  | absentUnder _ _ => false

/-- The value of the node itself; a variable has the value it holds. -/
def value (p : Pointer) (st : Store) : Datum :=
  match p with
  | json r => ((st.at? r.doc r.path).map Datum.ofJson).getD .null
  | tree r => r.value st.forest
  | var v => ((st.slot? v).map st.slotValue).getD .null
  | absent _ => .null
  | absentUnder _ _ => .null

/-- Whether the node that this one opens onto exists. -/
def isOpenedActual (p : Pointer) (st : Store) : Bool :=
  let q := p.follow st
  match q.opening st with
  | .onDocument doc => (st.document? doc).isSome
  | .onCopy _ => true
  | _ => q.isActual st

/-- The value of the node that this one opens onto. -/
def openedValue (p : Pointer) (st : Store) : Datum :=
  let q := p.follow st
  match q.opening st with
  | .onDocument doc => ((st.document? doc).map Datum.ofJson).getD .null
  | .onCopy j => .ofJson j
  | _ => q.value st

/-! ## §C  Relatives -/

/-- Whether a node without a container around it has nothing below it. -/
def isPlainLeaf (p : Pointer) (st : Store) : Bool :=
  match p with
  | json r => ((st.document? r.doc).map r.isLeaf).getD true
  | tree r => r.isLeaf st.forest
  | _ => true

/-- Whether the node has nothing below it. -/
def isLeaf (p : Pointer) (st : Store) : Bool :=
  let q := p.follow st
  match q.opening st with
  | .onDocument doc => isPlainLeaf (q.documentOf doc) st
  | .onCopy j => !j.isBranching
  | _ => q.isPlainLeaf st

/-- The children of a node without a container around it. -/
def plainChildren (p : Pointer) (st : Store) : List Pointer :=
  match p with
  | json r => (((st.document? r.doc).map r.children).getD []).map json
  | tree r => (r.children st.forest).map tree
  | _ => []

/-- **children** are the children of a node, in order; a variable has those of what it holds. -/
def children (p : Pointer) (st : Store) : List Pointer :=
  let q := p.follow st
  match q.opening st with
  | .onDocument doc => plainChildren (q.documentOf doc) st
  | .onCopy _ => []
  | _ => q.plainChildren st

/-- **attributes** are the attributes of a node, in order. -/
def attributes (p : Pointer) (st : Store) : List Pointer :=
  match p with
  | json r => (((st.document? r.doc).map r.attributes).getD []).map json
  | tree r => (r.attributes st.forest).map tree
  | _ => []

/-- The namespace declarations of a node, in order. -/
def declarations (p : Pointer) (st : Store) : List Pointer :=
  match p with
  | tree r => (r.declarations st.forest).map tree
  | _ => []

/-- A bound on the number of levels below a node without a container around it. -/
def plainLevels (p : Pointer) (st : Store) : Nat :=
  match p with
  | json r => ((st.document? r.doc).map Json.height).getD 0
  | tree _ => st.forest.size
  | _ => 0

/-- A bound on the number of levels below a node; a variable has those of what it holds. -/
def levelsBelow (p : Pointer) (st : Store) : Nat :=
  let q := p.follow st
  match q.opening st with
  | .onDocument doc => plainLevels (q.documentOf doc) st
  | .onCopy _ => 0
  | _ => q.plainLevels st

/-! ## §D  Names, namespaces, language -/

/-- The name of the node. -/
def name (p : Pointer) (st : Store) : QName :=
  match p with
  | json r => r.name
  | tree r => r.name st.forest
  | var v => v.name
  | absent n => n
  | absentUnder _ n => n

/-- The kind of the node. -/
def kind (p : Pointer) (st : Store) : NodeKind :=
  match p with
  | json r => r.kind
  | tree r => r.kind st.forest
  | var _ => .root
  | absent _ => .element
  | absentUnder _ _ => .element

/-- The namespace of the node's own name. -/
def namespaceUri (p : Pointer) (st : Store) : Option String :=
  match p with
  | tree r => r.namespaceUri st.forest
  | _ => none

/-- The address that a label stands for at the node. -/
def addressOf (p : Pointer) (st : Store) (label : String) : Option String :=
  match p with
  | tree r => r.addressOf st.forest label
  | absentUnder q _ => q.addressOf st label
  | _ => none

/-- The label of the first declaration of an address at the node or above it. A declaration without a
label does not count. -/
def labelOf (p : Pointer) (st : Store) (address : String) : Option String :=
  (p :: p.above).findSome? fun q =>
    (q.declarations st).findSome? fun d =>
      let label := (d.name st).localName
      match d.value st with
      | .text a => if a == address && !label.isEmpty then some label else none
      | _ => none

/-- The language that the node is in. -/
def language (p : Pointer) (st : Store) : Option String :=
  match p with
  | tree r => r.language st.forest
  | absentUnder q _ => q.language st
  | _ => none

/-! ## §E  Paths -/

/-- A path without the slashes at its end. -/
def trimSlashes (s : String) : String := String.ofList (s.toList.reverse.dropWhile (· == '/')).reverse

/-- **pathText** is a path that leads to the node. -/
def pathText (p : Pointer) (st : Store) : String :=
  match p with
  | json r => r.pathText
  | tree r => r.pathText st.forest
  | var v => "$" ++ v.name.written
  | absent _ => "null()"
  | absentUnder q n =>
    if n.localName.isEmpty then q.pathText st else trimSlashes (q.pathText st) ++ "/" ++ n.written

/-! ## §F  Opening into a node -/

/-- **opened** is the node that this one opens onto. A plain value is put into the store as a document of
its own each time. -/
def opened (p : Pointer) : Eval Pointer := do
  let q := p.follow (← get)
  match q.opening (← get) with
  | .onDocument doc => pure (q.documentOf doc)
  | .onCopy j => do
    let doc ← Eval.change (·.addDocument j)
    pure (q.documentOf doc)
  | _ => pure q

end Pointer

namespace Datum

/-- **toJson** is a value as a document. A node becomes the value that it opens onto; a variable that
holds itself becomes null. -/
def toJson (d : Datum) (st : Store) : Json :=
  match d with
  | pointer p => (p.openedValue st).scalarJson
  | d => d.scalarJson

end Datum

end NodePath
