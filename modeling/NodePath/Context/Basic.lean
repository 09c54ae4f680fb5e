/-
# NodePath.Context.Basic — settings and where evaluation starts

A **Context** is where paths start from and what they are evaluated with: variables, functions,
namespaces, leniency, locale, decimal formats, and the managers that find nodes by key and by identifier.
Contexts lie in one another. A context is a list of layers, its own first and those of the contexts around
it behind; a setting that the own layer does not make is that of the nearest layer that makes it. The
layers of outer contexts are kept as they were when the inner context was made; only variables are shared.

* §A  `Layer` and `Context`.
* §B  Making contexts.
* §C  Settings that are looked up through the layers.
* §D  Variables.
* §E  Namespaces.
-/
import NodePath.Function.Format
import NodePath.Function.Library
import NodePath.Namespace.Scope

namespace NodePath

/-! ## §A  Layers -/

/-- **KeyManager** is how nodes are found by key. -/
inductive KeyManager where
  /-- A path for each key, in which an empty pair of braces stands for the value that is looked for. -/
  | paths (templates : List (String × String))
  /-- Functions of the host program, by their handles there: one that finds a node, and maybe one that finds all nodes. -/
  | hosted (one : String) (all : Option String)
deriving Inhabited

instance : Coe (List (String × String)) KeyManager := ⟨.paths⟩

/-- **IdentityManager** is how the node of an identifier is found. -/
inductive IdentityManager where
  /-- A path, in which an empty pair of braces stands for the identifier. -/
  | path (template : String)
  /-- A function of the host program, by its handle there. -/
  | hosted (handle : String)
deriving Inhabited

instance : Coe String IdentityManager := ⟨.path⟩

/-- **Layer** holds the settings of one context. -/
structure Layer where
  contextPointer : Pointer
  rootPointer : Pointer
  scope : ScopeId
  functions : Option FunctionLibrary
  namespaces : NamespaceScope
  lenient : Option Bool
  locale : Option String
  decimalFormats : List (String × DecimalSymbols)
  keyTemplates : Option KeyManager
  identityTemplate : Option IdentityManager
deriving Inhabited

/-- **Context** is a layer of its own and those of the contexts around it, nearest first. -/
structure Context where
  own : Layer
  outer : List Layer
deriving Inhabited

namespace Context

/-! ## §B  Making contexts -/

/-- A layer without settings. -/
def freshLayer (contextPointer rootPointer : Pointer) (scope : ScopeId) : Layer where
  contextPointer := contextPointer
  rootPointer := rootPointer
  scope := scope
  functions := none
  namespaces := .empty
  lenient := none
  locale := none
  decimalFormats := []
  keyTemplates := none
  identityTemplate := none

/-- A context at the top of an object graph. -/
def atRoot (root : Pointer) : Eval Context := do
  let scope ← Eval.change Store.addScope
  pure ⟨freshLayer root root scope, []⟩

/-- All layers, the own one first. -/
def layers (c : Context) : List Layer := c.own :: c.outer

/-- **relative** is a context at a node, inside this one. -/
def relative (c : Context) (p : Pointer) : Eval Context := do
  let scope ← Eval.change Store.addScope
  pure ⟨freshLayer p p.top scope, c.layers⟩

/-- The context with another own layer. -/
def modifyOwn (c : Context) (f : Layer → Layer) : Context := { c with own := f c.own }

/-- The node that relative paths start from. -/
def contextPointer (c : Context) : Pointer := c.own.contextPointer

/-- The node that absolute paths start from. -/
def rootPointer (c : Context) : Pointer := c.own.rootPointer

/-! ## §C  Settings -/

/-- Whether what is absent is answered as such instead of being an error. -/
def isLenient (c : Context) : Bool := (c.layers.findSome? (·.lenient)).getD false

/-- The context with leniency set. -/
def setLenient (c : Context) (lenient : Bool) : Context :=
  c.modifyOwn ({ · with lenient := some lenient })

/-- The locale, English unless one is set. -/
def locale (c : Context) : String := (c.layers.findSome? (·.locale)).getD "en"

/-- The context with a locale set. -/
def setLocale (c : Context) (locale : String) : Context := c.modifyOwn ({ · with locale := some locale })

/-- The decimal format of a name. -/
def decimalFormat? (c : Context) (name : String) : Option DecimalSymbols :=
  c.layers.findSome? fun l => (l.decimalFormats.find? (·.1 == name)).map (·.2)

/-- The context with a decimal format; the one without a name is the usual one. -/
def setDecimalFormat (c : Context) (name : String) (s : DecimalSymbols) : Context :=
  c.modifyOwn fun l => { l with decimalFormats := (name, s) :: l.decimalFormats }

/-- The symbols that numbers are printed with when no format is named. -/
def usualFormat (c : Context) : DecimalSymbols := (c.decimalFormat? "").getD (.forLocale c.locale)

/-- The context with a function library of its own. -/
def setFunctions (c : Context) (library : FunctionLibrary) : Context :=
  c.modifyOwn ({ · with functions := some library })

/-- The function for a call, from the own library, those around it, or the functions of all contexts. -/
def function? (c : Context) (name : QName) (arity : Nat) : Option Implementation :=
  (c.layers.filterMap (·.functions) ++ [builtinLibrary]).findSome? (·.find? name arity)

/-- The nearest key manager. -/
def keyManager? (c : Context) : Option KeyManager := c.layers.findSome? (·.keyTemplates)

/-- The nearest identity manager. -/
def identityManager? (c : Context) : Option IdentityManager := c.layers.findSome? (·.identityTemplate)

/-! ## §D  Variables -/

/-- A reference to the nearest declaration of a variable. -/
def variableRef (c : Context) (st : Store) (name : QName) : VarRef :=
  ⟨name, (c.layers.map (·.scope)).find? fun s => ((st.scope s).get? name.written).isSome⟩

/-- The value of the nearest declaration of a variable. -/
def variableValue? (c : Context) (st : Store) (name : QName) : Option Datum :=
  (c.layers.map (·.scope)).findSome? fun s => st.valueOfName? s name.written

/-- Declares a variable in this context. -/
def declare (c : Context) (name : String) (d : Datum) : Eval Unit :=
  modify (·.declare c.own.scope name d)

/-! ## §E  Namespaces -/

/-- The chain of namespace scopes. -/
def namespaces (c : Context) : NamespaceChain := c.layers.map (·.namespaces)

/-- The context with a label registered for an address. -/
def registerNamespace (c : Context) (label address : String) : Context :=
  c.modifyOwn fun l => { l with namespaces := l.namespaces.register label address }

/-- The context with another node whose declarations are visible, or with none but its own. -/
def setNamespaceNode (c : Context) (node : Option Pointer) : Context :=
  c.modifyOwn fun l => { l with namespaces := { l.namespaces with node } }

/-- The node whose declarations are visible. -/
def namespaceNode (c : Context) : Pointer := c.own.namespaces.node.getD c.contextPointer

/-- What the context node declares, when no other node was set. -/
def fromContextNode (c : Context) (look : Pointer → Option String) : Option String :=
  if c.own.namespaces.node.isNone then look c.contextPointer else none

/-- The address that a label stands for. -/
def addressOf (c : Context) (st : Store) (label : String) : Option String :=
  c.namespaces.address st label <|> c.fromContextNode (·.addressOf st label)

/-- The label that stands for an address. -/
def labelOf (c : Context) (st : Store) (address : String) : Option String :=
  c.namespaces.label st address <|> c.fromContextNode (·.labelOf st address)

end Context

end NodePath
