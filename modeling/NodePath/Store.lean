/-
# NodePath.Store — what pointers point into

The **Store** holds everything that pointers address by number: documents, the forest of element trees,
and sets of variables, and next to them the engine. Reading takes a store; an evaluation is a function from
a store to an answer and a store, and what was stored before an error stays.

* §A  `Slot` and `Variables`.
* §B  `Store`.
* §C  `Eval`, operations that may fail and change the store.
-/
import NodePath.Engine.Basic
import NodePath.Error
import NodePath.Pointer.Basic

namespace NodePath

/-! ## §A  Variables -/

/-- What a variable holds: a value, or for arrays and objects a document, so that paths through the
variable can change it in place. -/
inductive Slot where
  | value (d : Datum)
  | document (doc : DocId)
deriving Inhabited, Repr

/-- **Variables** is one set of declared variables. -/
abbrev Variables := List (String × Slot)

namespace Variables

/-- What the variable of a name holds. -/
def get? (vs : Variables) (name : String) : Option Slot := (vs.find? (·.1 == name)).map (·.2)

/-- The variables without that of a name. -/
def erase (vs : Variables) (name : String) : Variables := vs.filter (·.1 != name)

/-- The variables with one declared, in the stead of any of its name. -/
def set (vs : Variables) (name : String) (slot : Slot) : Variables := (name, slot) :: vs.erase name

/-- The names of the declared variables, in the order of their characters. -/
def names (vs : Variables) : List String := (vs.map (·.1)).mergeSort (· ≤ ·)

end Variables

/-! ## §B  The store -/

/-- **Store** is what pointers point into. -/
structure Store where
  documents : Array Json
  forest : Forest
  scopes : Array Variables
  engine : Engine

instance : Inhabited Store := ⟨⟨#[], #[], #[], default⟩⟩

namespace Store

/-- A store with nothing in it but an engine. -/
def ofEngine (engine : Engine) : Store := ⟨#[], #[], #[], engine⟩

/-- The document of a number. -/
def document? (st : Store) (d : DocId) : Option Json := st.documents[d]?

/-- The part of a document at a place. -/
def at? (st : Store) (d : DocId) (path : List Segment) : Option Json :=
  (st.document? d).bind (Json.at? path)

/-- Puts a document in. -/
def addDocument (st : Store) (j : Json) : Store × DocId :=
  ({ st with documents := st.documents.push j }, st.documents.size)

/-- Changes a document. -/
def setDocument (st : Store) (d : DocId) (j : Json) : Store :=
  { st with documents := st.documents.setIfInBounds d j }

/-- Puts an empty set of variables in. -/
def addScope (st : Store) : Store × ScopeId :=
  ({ st with scopes := st.scopes.push [] }, st.scopes.size)

/-- The variables of a set. -/
def scope (st : Store) (s : ScopeId) : Variables := st.scopes.getD s []

/-- Changes a set of variables. -/
def setScope (st : Store) (s : ScopeId) (vs : Variables) : Store :=
  { st with scopes := st.scopes.setIfInBounds s vs }

/-- Declares a variable. An array or an object gets a document of its own. -/
def declare (st : Store) (s : ScopeId) (name : String) (d : Datum) : Store :=
  match d with
  | .object j =>
    let (st, doc) := st.addDocument j
    st.setScope s ((st.scope s).set name (.document doc))
  | d => st.setScope s ((st.scope s).set name (.value d))

/-- Takes a variable out, and says whether it was declared. -/
def undeclare (st : Store) (s : ScopeId) (name : String) : Store × Bool :=
  let vs := st.scope s
  (st.setScope s (vs.erase name), (vs.get? name).isSome)

/-- The value of what a variable holds. A document stays one, also when a path through the variable has
made a scalar of it. -/
def slotValue (st : Store) : Slot → Datum
  | .value d => d
  | .document doc => .object ((st.document? doc).getD .null)

/-- The value of a variable of a set. -/
def valueOfName? (st : Store) (s : ScopeId) (name : String) : Option Datum :=
  ((st.scope s).get? name).map st.slotValue

/-- What a reference to a variable leads to, if it is declared. -/
def slot? (st : Store) (v : VarRef) : Option Slot :=
  v.scope.bind fun s => (st.scope s).get? v.name.written

/-- The number of variables in all sets. A chain of variables that hold one another is no longer, unless it has no end. -/
def variableCount (st : Store) : Nat := st.scopes.foldl (fun n vs => n + vs.length) 0

end Store

/-! ## §C  Operations -/

/-- **Eval** is an operation that may fail and may change the store. -/
abbrev Eval := ExceptT EvalError (StateM Store)

namespace Eval

/-- Changes the store and answers what the change answers. -/
def change {α : Type} (f : Store → Store × α) : Eval α := do
  let (st, a) := f (← get)
  set st
  pure a

/-- Fails because of a fault. -/
def fault {α : Type} (f : Fault) : Eval α := throw (.evaluation f)

/-- Attaches the text of an expression to the error of an operation. -/
def atPath {α : Type} (path : String) (m : Eval α) : Eval α := tryCatch m fun e => throw (e.atPath path)

/-- Runs an operation on a store. -/
def runOn {α : Type} (m : Eval α) (st : Store) : Except EvalError α × Store := m.run.run st

end Eval

end NodePath
