/-
# NodePath.Engine.Basic — compiled expressions and factories

An **Engine** is what evaluations share: the cache of compiled expressions and the registry of factories.

* §A  `EngineConfig`, and reading one from a document.
* §B  `Engine`, `compile`, and the factories.
-/
import NodePath.Engine.Cache
import NodePath.Engine.Factory
import NodePath.Expr.Parser
import NodePath.Json.Fields

namespace NodePath

/-! ## §A  Configuration -/

/-- **EngineConfig** says how many compiled expressions are kept, and whether documents become nodes. -/
structure EngineConfig where
  cacheCapacity : Nat := 4096
  builtinFactories : Bool := true
deriving Repr, Inhabited

/-- The configuration that a document describes: settings that are not mentioned keep their usual
value, and settings of other names are passed over. -/
def EngineConfig.ofJson? (j : Json) : Option EngineConfig := do
  let fields ← Json.fields? ["cache_capacity", "builtin_factories"] j
  let capacity ← Json.field? fields "cache_capacity" Json.toNat64? 4096
  let builtin ← Json.field? fields "builtin_factories" Json.toBool? true
  some ⟨capacity, builtin⟩

/-! ## §B  Engines -/

/-- An expression tree with a number that tells one compilation from another. -/
structure Compiled where
  number : Nat
  expr : Expr
deriving Inhabited

/-- **Engine** is what evaluations share. -/
structure Engine where
  cache : Cache Compiled
  nextNumber : Nat
  registry : Registry

namespace Engine

/-- A new engine. -/
def new (config : EngineConfig) : Engine :=
  let registry :=
    if config.builtinFactories then (Registry.empty.add documentOrder .documents).1 else Registry.empty
  ⟨.empty config.cacheCapacity, 0, registry⟩

instance : Inhabited Engine := ⟨new {}⟩

/-- **compile** is the tree of a text, from the cache if it is there. What is no expression is not kept
and leaves the cache as it was. -/
def compile (e : Engine) (text : String) : Except ParseError Compiled × Engine :=
  match e.cache.find? text with
  | some (c, cache) => (.ok c, { e with cache })
  | none =>
    match Expr.parse text with
    | .error err => (.error err, e)
    | .ok expr =>
      let c : Compiled := ⟨e.nextNumber, expr⟩
      (.ok c, { e with cache := e.cache.insert text c, nextNumber := e.nextNumber + 1 })

/-- The number of compiled expressions that are kept. -/
def cached (e : Engine) : Nat := e.cache.size

/-- The engine with an empty cache. -/
def clearCache (e : Engine) : Engine := { e with cache := e.cache.clear }

/-- Registers a factory. -/
def addFactory (e : Engine) (order : Int) (maker : Maker) : Engine × Factory :=
  let (registry, f) := e.registry.add order maker
  ({ e with registry }, f)

/-- Takes a factory out, and says whether it was there. -/
def removeFactory (e : Engine) (number : Nat) : Engine × Bool :=
  let (registry, found) := e.registry.remove number
  ({ e with registry }, found)

/-- Whether some factory makes a node of a shared document. -/
def opensDocuments (e : Engine) : Bool := (e.registry.choose? (.document 0)).isSome

end Engine

end NodePath
