/-
# NodePath.Context.Write — changing through a context

* §A  Replacing values.
* §B  Creating nodes along a path: each step is followed as far as there are nodes, and what is missing is
  made.
* §C  Removing. All nodes of a path are removed from the last one to the first, so that the paths of those that
  are left stay good; each of them is looked up anew by its path.
-/
import NodePath.Context.Read
import NodePath.Pointer.Edit

namespace NodePath

namespace Setting

/-! ## §A  Values -/

/-- Gives the node that an expression reads a value. -/
def assign (s : Setting) (text : String) (d : Datum) (e : Expr) : Eval Unit := do
  match ← s.readPointer text e with
  | none => throw (.notFound text)
  | some p => if p.isActual (← get) then p.setValue d else throw (.notFound text)

/-! ## §B  Creation -/

/-- The value of a predicate at the context node. A node-set that cannot be looked at counts as empty. -/
def predicateValue (s : Setting) (e : Expr) : Eval Datum := do
  let ev := s.predicateEvaluator e
  match ← ev.on (← s.start) (ev.value · e) with
  | .datum d => pure d
  | v => tryCatch (ev.firstOf v) fun _ => pure .null

/-- The index that the value of a predicate asks for, from zero on. -/
def indexOf (s : Setting) (e : Expr) : Eval Nat := do
  let d ← s.predicateValue e
  let refused : EvalError := .evaluation (.positionNotUsable (d.toText (← get)))
  match d with
  | .number x => if x >= 1 && Number.isWhole x then pure (Number.toIndex x - 1) else throw refused
  | _ => throw refused

/-- The node that a name names among some nodes, the one at an index. -/
def named? (s : Setting) (st : Store) (test : NodeTest) (i : Nat) (ps : List Pointer) : Option Pointer :=
  (ps.filter (test.accepts (s.context.addressOf st) · st))[i]?

/-- The node that a step leads to; a missing child or attribute is made. -/
def createStep (s : Setting) (parent : Pointer) (step : Step) : Eval Pointer := do
  let index ← step.predicates.head?.mapM s.indexOf
  let st ← get
  match step.axis, step.test with
  | .child, .name name =>
    match s.named? st step.test (index.getD 0) (parent.children st) with
    | some p => pure p
    | none => parent.createChild name index
  | .attributes, .name name =>
    match s.named? st step.test (index.getD 0) (parent.attributes st) with
    | some p => pure p
    | none => parent.createAttribute name
  | _, _ => pure parent

/-- The node that steps lead to from a node. -/
def createSteps (s : Setting) (p : Pointer) : List Step → Eval Pointer
  | [] => pure p
  | step :: steps => do createSteps s (← s.createStep (← p.opened) step) steps

/-- A variable as a node; it has to be declared. -/
def declaredVariable (s : Setting) (name : QName) : Eval Pointer := do
  let st ← get
  let p := Pointer.var (s.context.variableRef st name)
  if p.isActual st then pure p else throw (.undefinedVariable name.written)

/-- The node that a simple path leads to, with all that is missing made. -/
def create (s : Setting) (text : String) (e : Expr) : Eval Pointer := do
  if !e.isSimplePath then throw (.invalidSyntax text .notSimple)
  match e with
  | .path absolute steps =>
    s.createSteps (if absolute then s.context.rootPointer else s.context.contextPointer) steps
  | .filter (.var name) _ steps => do s.createSteps (← s.declaredVariable name) steps
  | .var name => s.declaredVariable name
  | _ => throw (.invalidSyntax text .notSimple)

/-! ## §C  Removal -/

/-- Removes the node that an expression reads, if there is one. -/
def removeOne (s : Setting) (text : String) (e : Expr) : Eval Unit := do
  match ← s.readPointer text e with
  | none => pure ()
  | some p => if p.isActual (← get) then p.remove else pure ()

end Setting

namespace Context

/-- **setValue** gives the node that a text reads a value. -/
def setValue (c : Context) (host : Host) (text : String) (d : Datum) : Eval Unit :=
  Reading.withText text ((c.setting host).assign text d)

/-- **createPath** makes sure that the node of a path exists. -/
def createPath (c : Context) (host : Host) (text : String) : Eval Pointer :=
  Reading.withText text ((c.setting host).create text)

/-- **createPathAndSetValue** makes sure that the node of a path exists and gives it a value. -/
def createPathAndSetValue (c : Context) (host : Host) (text : String) (d : Datum) : Eval Pointer :=
  Reading.withText text fun e => do
    let p ← (c.setting host).create text e
    p.setValue d
    pure p

/-- **removePath** removes the node that a text reads. -/
def removePath (c : Context) (host : Host) (text : String) : Eval Unit :=
  Reading.withText text ((c.setting host).removeOne text)

/-- Removes nodes by their paths, one after the other. -/
def removeByPath (c : Context) (host : Host) : List Pointer → Eval Unit
  | [] => pure ()
  | p :: ps => do
    c.removePath host (p.pathText (← get))
    removeByPath c host ps

/-- Removes the nodes of an expression, the last one in document order first. -/
def removeEvery (c : Context) (host : Host) (e : Expr) : Eval Unit := do
  let found ← allOf (← (c.setting host).pointers e)
  match sortDistinct (← get) found .descending with
  | .error error => throw error
  | .ok [] => pure ()
  | .ok (p :: ps) => do
    p.remove
    c.removeByPath host ps

/-- **removeAll** removes all nodes of a text. -/
def removeAll (c : Context) (host : Host) (text : String) : Eval Unit :=
  Reading.withText text (c.removeEvery host)

end Context

end NodePath
