/-
# NodePath.Namespace.Handle — shared scopes that can be sealed

Several **Handle**s may share one scope. Sealing a scope marks it, with all scopes around it, for every
handle that shares it; a change through a handle never reaches the others: it gives the handle a scope of
its own, which is not sealed. So each scope has a number, and the numbers that are sealed are kept in
**Seals**.
-/
import NodePath.Namespace.Scope

namespace NodePath

/-- **Seals** hands out numbers for scopes, and knows which of them are sealed. -/
structure Seals where
  next : Nat
  sealedScopes : List Nat
deriving Inhabited, Repr

/-- **Handle** is a chain of scopes with the number of each. -/
structure Handle where
  numbers : List Nat
  chain : NamespaceChain
deriving Inhabited, Repr

namespace Handle

/-- Operations on handles. -/
abbrev Sealing := StateM Seals

/-- A number that no scope has. -/
def freshNumber : Sealing Nat := modifyGet fun s => (s.next, { s with next := s.next + 1 })

/-- A scope of its own without registrations. -/
def new : Sealing Handle := do pure ⟨[← freshNumber], [.empty]⟩

/-- A new scope inside the scope of a handle. -/
def inside (h : Handle) : Sealing Handle := do pure ⟨(← freshNumber) :: h.numbers, .empty :: h.chain⟩

/-- Changes the innermost scope for this handle alone. -/
def change (h : Handle) (f : NamespaceScope → NamespaceScope) : Sealing Handle := do
  pure ⟨(← freshNumber) :: h.numbers.drop 1, h.chain.modifyOwn f⟩

/-- Makes a label stand for an address. -/
def register (h : Handle) (label address : String) : Sealing Handle := h.change (·.register label address)

/-- Gives the innermost scope a node, or none. -/
def setNode (h : Handle) (node : Option Pointer) : Sealing Handle := h.change ({ · with node })

/-- Seals all scopes of a handle. -/
def sealScopes (h : Handle) : Sealing Unit :=
  modify fun s => { s with sealedScopes := h.numbers ++ s.sealedScopes }

/-- Whether the innermost scope is sealed. -/
def isSealed (h : Handle) (s : Seals) : Bool := h.numbers.head?.any s.sealedScopes.contains

end Handle

end NodePath
