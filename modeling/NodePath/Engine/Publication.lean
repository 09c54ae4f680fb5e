/-
# NodePath.Engine.Publication — a published list of factories

Factories are asked far more often than they are registered. So the registrations are kept as they came in, each
with a number of its own, and the list in the order of consultation is published apart from them: readers are
served from what is published. A write withdraws it, and the next reader sorts the registrations and publishes
them anew.

* §A  `Publication`: the registrations, and what is published of them.
* §B  Requests to a registry, and what answers them.
-/
import NodePath.Engine.Basic

namespace NodePath

/-! ## §A  Registrations -/

/-- **Publication** is a registry with the list that readers are served from, if one is published. -/
structure Publication where
  /-- The number of the next registration. -/
  next : Nat
  /-- The registrations as they came in, each with its number. -/
  entries : List (Nat × Factory)
  published : Option (List Factory)
deriving Inhabited, Repr

namespace Publication

/-- Nothing registered and nothing published. -/
def empty : Publication := ⟨0, [], none⟩

/-- Whether a registration is asked no later than another one: by order, and then by number. -/
def noLater (a b : Nat × Factory) : Bool :=
  a.2.order < b.2.order || (a.2.order == b.2.order && a.1 ≤ b.1)

/-- The factories in the order in which they are asked. -/
def sorted (entries : List (Nat × Factory)) : List Factory := (entries.mergeSort noLater).map (·.2)

/-- Registers a factory, which may be registered already. -/
def add (f : Factory) (p : Publication) : Publication := ⟨p.next + 1, p.entries ++ [(p.next, f)], none⟩

/-- Takes every registration of a factory out, and says whether there was one. What is published is withdrawn
only if there was. -/
def remove (number : Nat) (p : Publication) : Publication × Bool :=
  let rest := p.entries.filter (·.2.number != number)
  let removed := rest.length != p.entries.length
  ({ p with entries := rest, published := if removed then none else p.published }, removed)

/-- **snapshot** is the published list; if there is none, the registrations are sorted and published. -/
def snapshot (p : Publication) : List Factory × Publication :=
  match p.published with
  | some factories => (factories, p)
  | none => (sorted p.entries, { p with published := some (sorted p.entries) })

end Publication

/-! ## §B  Requests -/

/-- **FactoryRequest** is what the factories of an engine are asked for. -/
inductive FactoryRequest (α : Type) where
  | add (f : Factory)
  | remove (number : Nat)
  | list
  /-- A node for an object named `name`. What a factory makes of the object, if it accepts it, is `offer`. -/
  | make (name : QName) (offer : Factory → Option α)

/-- **FactoryAnswer** is what is answered. -/
inductive FactoryAnswer (α : Type) where
  | done
  | removed (found : Bool)
  | listed (factories : List Factory)
  | made (outcome : Except EvalError α)

variable {α : Type}

/-- What the first of some factories to accept an object makes of it. -/
def FactoryAnswer.firstOffer (name : QName) (offer : Factory → Option α) (factories : List Factory) : FactoryAnswer α :=
  match factories.findSome? offer with
  | some a => .made (.ok a)
  | none => .made (.error (.unsupported (.noFactory name.written)))

namespace Publication

/-- A request served from what is published. -/
def serve (p : Publication) : FactoryRequest α → FactoryAnswer α × Publication
  | .add f => (.done, p.add f)
  | .remove number =>
    let (p, found) := p.remove number
    (.removed found, p)
  | .list =>
    let (factories, p) := p.snapshot
    (.listed factories, p)
  | .make name offer =>
    let (factories, p) := p.snapshot
    (.firstOffer name offer factories, p)

/-- The publication after some requests. -/
def after (requests : List (FactoryRequest α)) : Publication :=
  requests.foldl (fun p request => (p.serve request).2) .empty

end Publication

namespace Engine

/-- Registers a factory, which may be registered already. -/
def register (e : Engine) (f : Factory) : Engine :=
  { e with registry := ⟨max e.registry.nextNumber (f.number + 1), e.registry.factories ++ [f]⟩ }

/-- A request served from the factories as they are registered. -/
def serveFactory (e : Engine) : FactoryRequest α → FactoryAnswer α × Engine
  | .add f => (.done, e.register f)
  | .remove number =>
    let (e, found) := e.removeFactory number
    (.removed found, e)
  | .list => (.listed e.registry.ordered, e)
  | .make name offer => (.firstOffer name offer e.registry.ordered, e)

/-- The factories that a new engine registers. -/
def builtins (config : EngineConfig) : List (FactoryRequest α) :=
  if config.builtinFactories then [.add ⟨0, documentOrder, .documents⟩] else []

/-- A new engine after some requests. -/
def afterRequests (config : EngineConfig) (requests : List (FactoryRequest α)) : Engine :=
  requests.foldl (fun e request => (e.serveFactory request).2) (.new config)

/-- A new factory is registered as one whose number no other factory has had. -/
theorem addFactory_eq_register (e : Engine) (order : Int) (maker : Maker) :
    e.addFactory order maker =
      (e.register ⟨e.registry.nextNumber, order, maker⟩, ⟨e.registry.nextNumber, order, maker⟩) := by
  simp [addFactory, Registry.add, register]

end Engine

end NodePath
