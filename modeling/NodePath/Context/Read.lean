/-
# NodePath.Context.Read — reading through a context

An expression is given as text and evaluated at the context node. Whatever fails, the error carries that
text. What an expression selects may be absent: that is an error, too, unless the context is lenient.

* §A  Compiling.
* §B  `Reading`: values and nodes of texts, and how an evaluation comes to read other texts.
* §C  The operations of a context.
-/
import NodePath.Evaluation.Expr

namespace NodePath

/-! ## §A  Compiling -/

/-- The tree of a text. -/
def compileText (text : String) : Eval Expr := do
  let (r, engine) := (← get).engine.compile text
  modify fun st => { st with engine }
  match r with
  | .ok c => pure c.expr
  | .error e => throw (.parse e)

/-! ## §B  Readings -/

namespace Setting

/-- What stands for an absent value, if the context puts up with it. -/
def absent {α : Type} (s : Setting) (text : String) (usual : α) : Eval α :=
  if s.context.isLenient then pure usual else throw (.notFound text)

/-- The value of an expression where a node-set that cannot be looked at counts as empty. -/
def glanceValue (s : Setting) (e : Expr) : Eval Datum := do
  match ← s.computeValue e with
  | .datum d => pure d
  | v => tryCatch ((s.evaluator e).firstOf v) fun _ => pure .null

/-- The value that an expression reads. A node is read through everything that it opens onto. -/
def readValue (s : Setting) (text : String) (e : Expr) : Eval Datum := do
  match ← s.glanceValue e with
  | .null => if e.isPath then s.absent text .null else pure .null
  | .pointer p =>
    let st ← get
    if p.isOpenedActual st then pure (p.openedValue st) else s.absent text .null
  | d => pure d

/-- The first node of an expression; a value that is no node is made one. -/
def firstPointer (s : Setting) (e : Expr) : Eval (Option Pointer) := do
  match ← s.compute e with
  | .nodes c => (s.evaluator e).first c
  | .datum .null => pure none
  | .datum d => do pure (some (← Pointer.wrap d))

/-- The node that an expression reads. -/
def readPointer (s : Setting) (text : String) (e : Expr) : Eval (Option Pointer) := do
  match ← s.firstPointer e with
  | none => s.absent text none
  | some p => if p.isActual (← get) || s.context.isLenient then pure (some p) else s.absent text none

end Setting

/-- **Reading** is what texts read in contexts. -/
structure Reading where
  value : Context → String → Eval Datum
  pointer : Context → String → Eval (Option Pointer)

namespace Reading

/-- The reading that allows no further evaluation. -/
def refused : Reading := ⟨fun _ _ => throw (.evaluation .exhausted), fun _ _ => throw (.evaluation .exhausted)⟩

/-- What an expression in a context is evaluated with, when the expressions that it reads in turn are read by
`r`. -/
def setting (r : Reading) (host : Host) (c : Context) : Setting where
  context := c
  host := host
  evaluateIn := r.value
  pointerIn := r.pointer

/-- Compiles a text and uses its tree in a context; an error carries the text. -/
def withText {α : Type} (text : String) (use : Expr → Eval α) : Eval α :=
  Eval.atPath text do use (← compileText text)

/-- The reading for one more level of texts read by texts. -/
def next (host : Host) (r : Reading) : Reading where
  value c text := withText text ((r.setting host c).readValue text)
  pointer c text := withText text ((r.setting host c).readPointer text)

/-- The reading for so many levels. -/
def toDepth (host : Host) : Nat → Reading
  | 0 => refused
  | depth + 1 => (toDepth host depth).next host

/-- How deep texts may read texts. -/
def maxDepth : Nat := 200

end Reading

/-! ## §C  Operations -/

namespace Context

/-- What expressions in a context are evaluated with. -/
def setting (c : Context) (host : Host) : Setting := (Reading.toDepth host Reading.maxDepth).setting host c

/-- **getValue** is the value that a text reads. -/
def getValue (c : Context) (host : Host) (text : String) : Eval Datum :=
  Reading.withText text ((c.setting host).readValue text)

/-- **getPointer** is the node that a text reads. -/
def getPointer (c : Context) (host : Host) (text : String) : Eval (Option Pointer) :=
  Reading.withText text ((c.setting host).readPointer text)

/-- Answers with the text attached to their error. -/
def located {α : Type} (text : String) (d : Setting.Delivered α) : Setting.Delivered α :=
  (d.1, d.2.map (·.atPath text))

/-- **iterate** are all values of a text. -/
def iterate (c : Context) (host : Host) (text : String) : Eval (Setting.Delivered Datum) :=
  Reading.withText text fun e => do pure (located text (← (c.setting host).values e))

/-- **iteratePointers** are all nodes of a text. -/
def iteratePointers (c : Context) (host : Host) (text : String) : Eval (Setting.Delivered Pointer) :=
  Reading.withText text fun e => do pure (located text (← (c.setting host).pointers e))

/-- All answers, or the error that they end with. -/
def allOf {α : Type} (d : Setting.Delivered α) : Eval (List α) :=
  match d.2 with
  | none => pure d.1
  | some e => throw e

/-- **selectNodes** are the values of all nodes of a text. -/
def selectNodes (c : Context) (host : Host) (text : String) : Eval (List Datum) := do
  let ps ← allOf (← c.iteratePointers host text)
  let st ← get
  pure (ps.map (·.openedValue st))

/-- **selectSingleNode** is the value of the node that a text reads; null without one. -/
def selectSingleNode (c : Context) (host : Host) (text : String) : Eval Datum := do
  let p? ← c.getPointer host text
  let st ← get
  pure ((p?.map (·.openedValue st)).getD .null)

/-- The evaluator that managers are asked by, outside of any expression. -/
def outside (c : Context) (host : Host) : Evaluator := .idle (c.setting host) (c.setting host).surroundings

/-- **pointerById** is the node with an identifier. -/
def pointerById (c : Context) (host : Host) (id : String) : Eval (Option Pointer) := (c.outside host).pointerById id

/-- **pointerByKey** is the node whose key has a value. -/
def pointerByKey (c : Context) (host : Host) (key value : String) : Eval (Option Pointer) :=
  (c.outside host).pointerByKey key value

/-- **nodesByKey** are the nodes whose key has a value. -/
def nodesByKey (c : Context) (host : Host) (key : String) (d : Datum) : Eval (List Pointer) :=
  (c.outside host).nodesByKey key d

end Context

end NodePath
