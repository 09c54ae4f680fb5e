/-
# NodePath.Namespace.Scope — labels for addresses

A **NamespaceScope** registers labels for namespace addresses. Scopes lie in one another; a chain of
them is a list with the innermost scope first. Each direction of look-up has a table of its own, and the
innermost scope that knows an answer gives it. What no scope has registered is looked for among the
declarations that are visible from the node of the innermost scope, if it has one.

* §A  One scope.
* §B  Chains of scopes.
-/
import NodePath.Pointer.Node

namespace NodePath

/-! ## §A  One scope -/

/-- **NamespaceScope** holds the registrations made in one scope. -/
structure NamespaceScope where
  addresses : List (String × String)
  labels : List (String × String)
  node : Option Pointer
deriving Inhabited, Repr

namespace NamespaceScope

/-- A scope without registrations. -/
def empty : NamespaceScope := ⟨[], [], none⟩

/-- The entry of a table under a key. -/
def look (table : List (String × String)) (key : String) : Option String :=
  (table.find? (·.1 == key)).map (·.2)

/-- The table without an entry under a key. -/
def drop (table : List (String × String)) (key : String) : List (String × String) :=
  table.filter (·.1 != key)

/-- The table with an entry under a key in the stead of any other. -/
def put (table : List (String × String)) (key value : String) : List (String × String) :=
  (key, value) :: drop table key

/-- **register** makes a label stand for an address. The address that the label stood for before loses
it, and the new address has it from now on. -/
def register (s : NamespaceScope) (label address : String) : NamespaceScope :=
  let labels :=
    match look s.addresses label with
    | some old => if look s.labels old == some label then drop s.labels old else s.labels
    | none => s.labels
  { s with addresses := put s.addresses label address, labels := put labels address label }

end NamespaceScope

/-! ## §B  Chains -/

/-- **NamespaceChain** is a list of scopes, innermost first. -/
abbrev NamespaceChain := List NamespaceScope

namespace NamespaceChain

/-- The address that a label is registered for. -/
def registeredAddress (c : NamespaceChain) (label : String) : Option String :=
  c.findSome? fun s => NamespaceScope.look s.addresses label

/-- The label that an address is registered for. -/
def registeredLabel (c : NamespaceChain) (address : String) : Option String :=
  c.findSome? fun s => NamespaceScope.look s.labels address

/-- The node of the innermost scope. -/
def node? (c : NamespaceChain) : Option Pointer := c.head?.bind (·.node)

/-- The address that a label stands for. -/
def address (c : NamespaceChain) (st : Store) (label : String) : Option String :=
  c.registeredAddress label <|> c.node?.bind (·.addressOf st label)

/-- The label that stands for an address. -/
def label (c : NamespaceChain) (st : Store) (address : String) : Option String :=
  c.registeredLabel address <|> c.node?.bind (·.labelOf st address)

/-- Changes the innermost scope. -/
def modifyOwn (c : NamespaceChain) (f : NamespaceScope → NamespaceScope) : NamespaceChain :=
  match c with
  | [] => [f .empty]
  | s :: outer => f s :: outer

end NamespaceChain

end NodePath
