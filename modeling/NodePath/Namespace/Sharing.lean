/-
# NodePath.Namespace.Sharing — scopes in shared memory

Handles to scopes are cheap because the scopes themselves are shared: a copy of a handle holds the same scope, and
so does every scope that was made inside of it. A scope is kept as long as something holds it. Sealing marks a
scope, with all scopes around it, where it lies. Before a write, a scope that is sealed, or that anything else
holds, is copied; the copy is not sealed, and the handle holds it in the stead of the old one.

* §A  Scopes in memory.
* §B  Holding scopes, copying and changing them.
* §C  Handles, and what may be asked of them.
-/
import NodePath.Namespace.Scope

namespace NodePath

/-! ## §A  Memory -/

/-- **ScopeNode** is a scope in memory, inside another one that has the number `outer`. -/
structure ScopeNode where
  scope : NamespaceScope
  outer : Option Nat
  isSealed : Bool
deriving Inhabited, Repr

namespace ScopeNode

/-! Memory has the scopes in the order in which they were made, the newest first. The number of a scope is how many
were made before it, so all that lies around it is behind it. -/

/-- The scope with a number. -/
def at? : List ScopeNode → Nat → Option ScopeNode
  | [], _ => none
  | n :: older, r => if r = older.length then some n else at? older r

/-- What the innermost scope that has an answer answers. -/
def lookUp (ask : NamespaceScope → Option String) : List ScopeNode → Nat → Option String
  | [], _ => none
  | n :: older, r =>
    if r = older.length then
      match ask n.scope, n.outer with
      | some answer, _ => some answer
      | none, some outer => lookUp ask older outer
      | none, none => none
    else lookUp ask older r

/-- Seals a scope and every scope around it. -/
def sealFrom : List ScopeNode → Nat → List ScopeNode
  | [], _ => []
  | n :: older, r =>
    if r = older.length then
      { n with isSealed := true } ::
        match n.outer with
        | some outer => sealFrom older outer
        | none => older
    else n :: sealFrom older r

/-- Changes the registrations of a scope where it lies. -/
def modifyAt (f : NamespaceScope → NamespaceScope) : List ScopeNode → Nat → List ScopeNode
  | [], _ => []
  | n :: older, r =>
    if r = older.length then { n with scope := f n.scope } :: older else n :: modifyAt f older r

/-- One holder less of a scope. A scope that nothing holds any more lets go of the scope around it. -/
def release : List ScopeNode → (Nat → Nat) → Nat → Nat → Nat
  | [], holders, _ => holders
  | n :: older, holders, r =>
    if r = older.length then
      let left := fun k => if k = r then holders k - 1 else holders k
      match n.outer with
      | some outer => if holders r = 1 then release older left outer else left
      | none => left
    else release older holders r

end ScopeNode

/-- **ScopeMemory** has the scopes that were made, and how many hold each of them. -/
structure ScopeMemory where
  nodes : List ScopeNode
  holders : Nat → Nat

namespace ScopeMemory

/-! ## §B  Operations -/

/-- Nothing was made yet. -/
def empty : ScopeMemory := ⟨[], fun _ => 0⟩

/-- Whether a scope is sealed. -/
def isSealed (m : ScopeMemory) (r : Nat) : Bool := (ScopeNode.at? m.nodes r).any (·.isSealed)

/-- One holder more. -/
def retain (m : ScopeMemory) (r : Nat) : ScopeMemory :=
  { m with holders := fun k => if k = r then m.holders k + 1 else m.holders k }

/-- One holder less. -/
def release (m : ScopeMemory) (r : Nat) : ScopeMemory := { m with holders := ScopeNode.release m.nodes m.holders r }

/-- One more scope, which is not sealed and has one holder. It holds the scope around it, if there is one. -/
def allocate (m : ScopeMemory) (scope : NamespaceScope) (outer : Option Nat) : ScopeMemory × Nat :=
  let m := outer.elim m m.retain
  (⟨⟨scope, outer, false⟩ :: m.nodes, fun k => if k = m.nodes.length then 1 else m.holders k⟩, m.nodes.length)

/-- A copy of a scope for one of its holders, which lets go of the scope itself. -/
def copy (m : ScopeMemory) (r : Nat) : ScopeMemory × Nat :=
  match ScopeNode.at? m.nodes r with
  | none => (m, r)
  | some n =>
    let (m, k) := m.allocate n.scope n.outer
    (m.release r, k)

/-- A scope that a holder of a scope may change: the scope itself, if it is not sealed and has no other holder. -/
def writable (m : ScopeMemory) (r : Nat) : ScopeMemory × Nat :=
  let (m, r) := if m.isSealed r then m.copy r else (m, r)
  if m.holders r = 1 then (m, r) else m.copy r

/-- The address that a label is registered for. -/
def registeredAddress (m : ScopeMemory) (r : Nat) (label : String) : Option String :=
  ScopeNode.lookUp (NamespaceScope.look ·.addresses label) m.nodes r

/-- The label that an address is registered for. -/
def registeredLabel (m : ScopeMemory) (r : Nat) (address : String) : Option String :=
  ScopeNode.lookUp (NamespaceScope.look ·.labels address) m.nodes r

/-- The node of a scope. -/
def node? (m : ScopeMemory) (r : Nat) : Option Pointer := (ScopeNode.at? m.nodes r).bind (·.scope.node)

/-- The address that a label stands for. -/
def address (m : ScopeMemory) (r : Nat) (st : Store) (label : String) : Option String :=
  m.registeredAddress r label <|> (m.node? r).bind (·.addressOf st label)

/-- The label that stands for an address. -/
def label (m : ScopeMemory) (r : Nat) (st : Store) (address : String) : Option String :=
  m.registeredLabel r address <|> (m.node? r).bind (·.labelOf st address)

end ScopeMemory

/-! ## §C  Handles -/

/-- **ResolverRequest** is what may be asked of handles, which are numbered as they are made. -/
inductive ResolverRequest where
  | new
  | inside (i : Nat)
  | clone (i : Nat)
  | register (i : Nat) (label address : String)
  | setNode (i : Nat) (node : Option Pointer)
  | sealScopes (i : Nat)
  | discard (i : Nat)
deriving Repr

/-- Whether a request writes through a handle, or does away with it. -/
def ResolverRequest.writes (i : Nat) : ResolverRequest → Bool
  | .register j _ _ => j == i
  | .setNode j _ => j == i
  | .discard j => j == i
  | _ => false

/-- **Resolvers** are handles to scopes in memory, as far as they are in use. -/
structure Resolvers where
  memory : ScopeMemory
  handles : List (Option Nat)

namespace Resolvers

/-- No handles. -/
def empty : Resolvers := ⟨.empty, []⟩

/-- The scope that a handle holds. -/
def scope? (s : Resolvers) (i : Nat) : Option Nat := s.handles[i]?.join

/-- Changes the scope that a handle holds, for this handle alone. -/
def write (s : Resolvers) (i : Nat) (f : NamespaceScope → NamespaceScope) : Resolvers :=
  match s.scope? i with
  | none => s
  | some r =>
    let (m, r) := s.memory.writable r
    ⟨{ m with nodes := ScopeNode.modifyAt f m.nodes r }, s.handles.set i (some r)⟩

/-- **serve** does what is asked. What is asked of a handle that is not in use is nothing. -/
def serve (s : Resolvers) : ResolverRequest → Resolvers
  | .new =>
    let (memory, r) := s.memory.allocate .empty none
    ⟨memory, s.handles ++ [some r]⟩
  | .inside i =>
    match s.scope? i with
    | none => s
    | some outer =>
      let (memory, r) := s.memory.allocate .empty (some outer)
      ⟨memory, s.handles ++ [some r]⟩
  | .clone i =>
    match s.scope? i with
    | none => s
    | some r => ⟨s.memory.retain r, s.handles ++ [some r]⟩
  | .register i label address => s.write i (·.register label address)
  | .setNode i node => s.write i ({ · with node })
  | .sealScopes i =>
    match s.scope? i with
    | none => s
    | some r => { s with memory := { s.memory with nodes := ScopeNode.sealFrom s.memory.nodes r } }
  | .discard i =>
    match s.scope? i with
    | none => s
    | some r => ⟨s.memory.release r, s.handles.set i none⟩

/-- The handles after some requests. -/
def after (requests : List ResolverRequest) : Resolvers := requests.foldl serve empty

end Resolvers

end NodePath
