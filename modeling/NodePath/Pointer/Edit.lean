/-
# NodePath.Pointer.Edit — changing what pointers point at

Values are replaced, nodes removed, children and attributes created. A change is made through one pointer
and seen through all others to the same graph; a change that fails leaves the graph as it was.

* §A  Documents.
* §B  Element trees.
* §C  Variables, and the dispatch on the kind of pointer.
-/
import NodePath.Coercion

namespace NodePath

/-- The refusal of an operation by the node at `path`. -/
def refuse (what path : String) : EvalError := .unsupported (.operation what path)

/-! ## §A  Documents -/

namespace JsonRef

/-- The failure to find the node. -/
def missing (r : JsonRef) : EvalError := .evaluation (.noNode r.pathText)

/-- The document with another value at the place. -/
def setValue (r : JsonRef) (new root : Json) : Except EvalError Json :=
  match Json.replace? new r.path root with
  | some root => .ok root
  | none => .error r.missing

/-- The document without the place. -/
def remove (r : JsonRef) (root : Json) : Except EvalError Json :=
  if r.path.isEmpty then .error (refuse "remove" r.pathText)
  else
    match root.erase? r.path with
    | some root => .ok root
    | none => .error r.missing

/-- The members of the part at the place, where a null counts as an object without members. -/
def membersOf (r : JsonRef) (root : Json) (what : String) : Except EvalError Json.Members :=
  match r.part? root with
  | none => .error r.missing
  | some .null => .ok []
  | some (.object ms) => .ok ms
  | some _ => .error (refuse what r.pathText)

/-- An array with nulls behind its items until it has more than `i`. -/
def padded (items : List Json) (i : Nat) : List Json :=
  items ++ List.replicate (i + 1 - items.length) .null

/-- The members with one named `key` that has an element at `i`, and the place of that element. The
first one may also be a member that is no array; later ones make an array of it. -/
def withChild (ms : Json.Members) (key : String) (i : Nat) : Json.Members × List Segment :=
  match ms.get? key, i with
  | none, 0 => (Json.Members.set key .null ms, [.key key])
  | some (.array items), i => (Json.Members.set key (.array (padded items i)) ms, [.key key, .index i])
  | some _, 0 => (ms, [.key key])
  | none, i => (Json.Members.set key (.array (padded [] i)) ms, [.key key, .index i])
  | some .null, i => (Json.Members.set key (.array (padded [] i)) ms, [.key key, .index i])
  | some j, i => (Json.Members.set key (.array (padded [j] i)) ms, [.key key, .index i])

/-- The members with one named `key`. -/
def withMember (ms : Json.Members) (key : String) : Json.Members :=
  if (ms.get? key).isSome then ms else Json.Members.set key .null ms

/-- The document with other members at the place. -/
def putMembers (r : JsonRef) (ms : Json.Members) (root : Json) : Json :=
  (Json.replace? (.object ms) r.path root).getD root

/-- The document with a child of a name and index, and that child. -/
def createChild (r : JsonRef) (name : QName) (i : Nat) (root : Json) :
    Except EvalError (Json × JsonRef) := do
  let key := name.written
  let ms ← r.membersOf root ("create child '" ++ key ++ "'")
  let (ms, path) := withChild ms key i
  pure (r.putMembers ms root, r.below path false)

/-- The document with an attribute of a name, and that attribute. -/
def createAttribute (r : JsonRef) (name : QName) (root : Json) : Except EvalError (Json × JsonRef) := do
  let key := name.written
  let ms ← r.membersOf root ("create attribute '" ++ key ++ "'")
  pure (r.putMembers (withMember ms key) root, r.below [.key key] true)

end JsonRef

/-! ## §B  Element trees -/

namespace TreeRef

/-- The forest with another value at the node: an element gets a single text. -/
def setValue (r : TreeRef) (content : String) (f : Forest) : Except EvalError Forest :=
  match r.facet, f[r.node]? with
  | .attr name, some (.element e) =>
    let attributes :=
      if (attributeOf e name).isSome then replaceFirst name content e.attributes
      else e.attributes ++ [(name, content)]
    .ok (f.put r.node (.element { e with attributes }))
  | .node, some (.text _) => .ok (f.put r.node (.text content))
  | .node, some (.element e) =>
    let (f, n) := f.plant (.text content)
    .ok (f.put r.node (.element { e with children := [n] }))
  | _, _ => .error (refuse "set a value" (r.pathText f))
where
  /-- The attributes with another value for the first one of a name. -/
  replaceFirst (name content : String) : List (String × String) → List (String × String)
    | [] => []
    | a :: as => if a.1 == name then (name, content) :: as else a :: replaceFirst name content as

/-- The forest without the node. -/
def remove (r : TreeRef) (f : Forest) : Except EvalError Forest :=
  match r.facet with
  | .attr name =>
    match r.owner? f with
    | some e => .ok (f.put r.node (.element { e with attributes := e.attributes.filter (·.1 != name) }))
    | none => .ok f
  | .declaration _ _ => .error (refuse "remove" (r.pathText f))
  | .node =>
    match r.above with
    | [] => .error (refuse "remove" (r.pathText f))
    | parent :: _ =>
      match f.element? parent with
      | none => .error (refuse "remove" (r.pathText f))
      | some e =>
        let rest := e.children.filter (· != r.node)
        if rest.length == e.children.length then
          .error (refuse "remove a detached node" (r.pathText f))
        else .ok (f.put parent (.element { e with children := rest }))

/-- The children of an element that are elements of a name. -/
def namedChildren (f : Forest) (e : Element) (name : String) : List NodeId :=
  e.children.filter fun n => (f.element? n).any (·.name == name)

/-- The forest with `n` more elements of a name behind the children of a node, and those elements. -/
def plantChildren (parent : NodeId) (name : String) : Nat → Forest → Forest
  | 0, f => f
  | n + 1, f =>
    let (f, new) := f.plant (.element name [] [] [])
    let f :=
      match f.element? parent with
      | some e => f.put parent (.element { e with children := e.children ++ [new] })
      | none => f
    plantChildren parent name n f

/-- The forest with a child of a name and index, and that child. -/
def createChild (r : TreeRef) (name : QName) (i : Nat) (f : Forest) :
    Except EvalError (Forest × TreeRef) :=
  match r.element? f with
  | none => .error (refuse "create a child" (r.pathText f))
  | some e =>
    let present := (namedChildren f e name.written).length
    let f := plantChildren r.node name.written (i + 1 - present) f
    let n := (((f.element? r.node).map (namedChildren f · name.written)).getD [])[i]?.getD 0
    .ok (f, r.child n)

/-- The forest with an attribute of a name, and that attribute. -/
def createAttribute (r : TreeRef) (name : QName) (f : Forest) : Except EvalError (Forest × TreeRef) :=
  match r.element? f with
  | none => .error (refuse "create an attribute" (r.pathText f))
  | some e =>
    let key := name.written
    let f :=
      if (attributeOf e key).isSome then f
      else f.put r.node (.element { e with attributes := e.attributes ++ [(key, "")] })
    .ok (f, r.withFacet (.attr key))

end TreeRef

/-! ## §C  Dispatch -/

namespace Pointer

/-- Changes a document, or fails and changes nothing. -/
def editDocument {α : Type} (r : JsonRef) (edit : Json → Except EvalError (Json × α)) : Eval α := do
  match edit (((← get).document? r.doc).getD .null) with
  | .error e => throw e
  | .ok (root, a) => do
    modify (·.setDocument r.doc root)
    pure a

/-- Changes the forest, or fails and changes nothing. -/
def editForest {α : Type} (edit : Forest → Except EvalError (Forest × α)) : Eval α := do
  match edit (← get).forest with
  | .error e => throw e
  | .ok (forest, a) => do
    modify fun st => { st with forest }
    pure a

/-- The set of variables that declares a variable. -/
def declaringScope (v : VarRef) : Eval ScopeId := do
  match v.scope with
  | some s =>
    if ((← get).slot? v).isSome then pure s else throw (.undefinedVariable v.name.written)
  | none => throw (.undefinedVariable v.name.written)

/-- Refuses an operation. -/
def refuseAt {α : Type} (p : Pointer) (what : String) : Eval α := do
  throw (refuse what (p.pathText (← get)))

/-- **setValue** gives a node a value. -/
def setValue (p : Pointer) (d : Datum) : Eval Unit := do
  match p with
  | json r =>
    let new := d.toJson (← get)
    editDocument r fun root => (r.setValue new root).map (·, ())
  | tree r =>
    let content := d.toText (← get)
    editForest fun f => (r.setValue content f).map (·, ())
  | var v =>
    let s ← declaringScope v
    modify (·.declare s v.name.written d)
  | p => p.refuseAt "set a value"

/-- **remove** takes a node out. -/
def remove (p : Pointer) : Eval Unit := do
  match p with
  | json r => editDocument r fun root => (r.remove root).map (·, ())
  | tree r => editForest fun f => (r.remove f).map (·, ())
  | var v =>
    let s ← declaringScope v
    modify fun st => (st.undeclare s v.name.written).1
  | p => p.refuseAt "remove"

/-- **createChild** makes sure that a node has a child of a name at an index, the first one when no index
is given. -/
def createChild (p : Pointer) (name : QName) (index : Option Nat) : Eval Pointer := do
  match p with
  | json r => json <$> editDocument r (r.createChild name (index.getD 0))
  | tree r => tree <$> editForest (r.createChild name (index.getD 0))
  | p => p.refuseAt "create a child"

/-- **createAttribute** makes sure that a node has an attribute of a name. -/
def createAttribute (p : Pointer) (name : QName) : Eval Pointer := do
  match p with
  | json r => json <$> editDocument r (r.createAttribute name)
  | tree r => tree <$> editForest (r.createAttribute name)
  | p => p.refuseAt "create an attribute"

end Pointer

end NodePath
