/-
# NodePath.Evaluation.Basic — evaluators

Expressions are evaluated against a cursor, whose current node is the context node. An **Evaluator** knows
the values of expressions up to some depth; the modules beside this one say how the values of one more level
follow from it. Node-sets stay unpulled as long as possible, so every expression has two values: the `lazy` one,
in which a node-set is a cursor and a variable is a node, and the plain one. All cursors are moved in the same
surroundings, from whatever depth they come.

* §A  `Setting` and `Evaluator`.
* §B  Working with cursors.
* §C  The two values of an operand.
* §D  Calls.
* §E  Looking nodes up by key and by identifier.
-/
import NodePath.Cursor.Delivery
import NodePath.Function.Builtin
import NodePath.Pointer.Make

namespace NodePath

/-! ## §A  Evaluators -/

/-- **Setting** is what expressions are evaluated with. The last two fields evaluate other expressions, given
as text, in contexts of their own. -/
structure Setting where
  context : Context
  host : Host
  evaluateIn : Context → String → Eval Datum
  pointerIn : Context → String → Eval (Option Pointer)

/-- **Evaluator** knows the values of expressions against the cursor of the walk, which moves as the motion
says. -/
structure Evaluator where
  setting : Setting
  /-- What the stages of cursors ask for. -/
  surroundings : Surroundings
  /-- The value in which node-sets are cursors and variables are nodes. -/
  lazy : Motion → Expr → Walk Value
  /-- The value in which paths are their first nodes and variables are what they hold. -/
  value : Motion → Expr → Walk Value

namespace Evaluator

/-- The evaluator that knows no value. -/
def idle (s : Setting) (around : Surroundings) : Evaluator where
  setting := s
  surroundings := around
  lazy _ _ := throw (.evaluation .exhausted)
  value _ _ := throw (.evaluation .exhausted)

/-- The context. -/
def context (ev : Evaluator) : Context := ev.setting.context

/-! ## §B  Cursors -/

/-- Moves the cursor of the walk. -/
def here {α : Type} (ev : Evaluator) (m : Motion → Walk α) : Walk α := Walk.moving ev.surroundings m

/-- Moves another cursor. -/
def on {α : Type} (ev : Evaluator) (c : Cursor) (m : Motion → Walk α) : Eval α :=
  Walk.within c (ev.here m)

/-- The first node of a cursor. -/
def first (ev : Evaluator) (c : Cursor) : Eval (Option Pointer) := ev.on c Motion.first

/-- All nodes of a cursor. -/
def nodeSet (ev : Evaluator) (c : Cursor) : Eval (List Pointer) := ev.on c Motion.nodeSet

/-- All nodes of a cursor in the order in which it delivers them. -/
def deliverAll (ev : Evaluator) (c : Cursor) : Eval (List Pointer) := ev.on c Motion.deliverAll

/-! ## §C  Operands -/

/-- A value with a node-set replaced by its first node. -/
def firstOf (ev : Evaluator) : Value → Eval Datum
  | .datum d => pure d
  | .nodes c => do pure (Call.ofNode (← ev.first c))

/-- The value of an operand; a variable is a node. -/
def operand (ev : Evaluator) (m : Motion) (e : Expr) : Walk Datum := do ev.firstOf (← ev.lazy m e)

/-- The value of an operand; a variable is what it holds, and has to be declared. -/
def plain (ev : Evaluator) (m : Motion) (e : Expr) : Walk Datum := do ev.firstOf (← ev.value m e)

/-- The text of an operand. -/
def text (ev : Evaluator) (m : Motion) (e : Expr) : Walk String := do
  pure ((← ev.operand m e).toText (← Walk.store))

/-- The truth value of an operand. -/
def truth (ev : Evaluator) (m : Motion) (e : Expr) : Walk Bool := do
  pure ((← ev.operand m e).toBoolean (← Walk.store))

/-- The number of an operand in arithmetic. -/
def double (ev : Evaluator) (m : Motion) (e : Expr) : Walk Float := do
  pure ((← ev.plain m e).toDouble (← Walk.store))

/-! ## §D  Calls -/

/-- What a function is given that is called at a node. -/
def callAt (ev : Evaluator) (node : Option Pointer) (position : Nat) : Call where
  context := ev.context
  node := node
  position := position
  evaluate := ev.setting.evaluateIn ev.context
  first := ev.first
  nodes := ev.nodeSet

/-- What a function that is called here is given. -/
def call (ev : Evaluator) (m : Motion) : Walk Call := do
  let node ← m.current
  pure (ev.callAt node (← Walk.frame).position)

/-- What an implementation does. -/
def action (ev : Evaluator) : Implementation → Action
  | .builtin b => b.action
  | .hosted handle => ev.setting.host handle

/-- The value of a call of an extension function. -/
def callFunction (ev : Evaluator) (m : Motion) (name : QName) (args : List Expr) : Walk Value := do
  match ev.context.function? name args.length with
  | none => throw (.undefinedFunction name.written)
  | some implementation =>
    let values ← args.mapM (ev.lazy m)
    let call ← ev.call m
    ev.action implementation call values

/-! ## §E  Looking nodes up -/

/-- A template with a value in each place that an empty pair of braces leaves open. -/
def fillTemplate (value : List Char) : List Char → List Char
  | '{' :: '}' :: cs => value ++ fillTemplate value cs
  | c :: cs => c :: fillTemplate value cs
  | [] => []

/-- The node that a path leads to, in the context made lenient. -/
def pointerAlong (ev : Evaluator) (template value : String) : Eval (Option Pointer) :=
  ev.setting.pointerIn (ev.context.setLenient true) (String.ofList (fillTemplate value.toList template.toList))

/-- What a function of the host program finds. It is called in the context, at no node. -/
def ask (ev : Evaluator) (handle : String) (args : List Datum) : Eval Value :=
  ev.setting.host handle (ev.callAt none 0) (args.map .datum)

/-- The node that such a function finds. -/
def askPointer (ev : Evaluator) (handle : String) (args : List Datum) : Eval (Option Pointer) := do
  match ← ev.firstOf (← ev.ask handle args) with
  | .pointer p => pure (some p)
  | _ => pure none

/-- All nodes that such a function finds. -/
def askPointers (ev : Evaluator) (handle : String) (args : List Datum) : Eval (List Pointer) := do
  match ← ev.ask handle args with
  | .nodes c => ev.deliverAll c
  | .datum (.pointer p) => pure [p]
  | .datum _ => pure []

/-- The node whose key has a value, by the nearest key manager. -/
def pointerByKey (ev : Evaluator) (key value : String) : Eval (Option Pointer) :=
  match ev.context.keyManager? with
  | none => throw (.evaluation .noKeyManager)
  | some (.paths templates) =>
    match templates.find? (·.1 == key) with
    | none => pure none
    | some t => ev.pointerAlong t.2 value
  | some (.hosted one _) => ev.askPointer one [.text key, .text value]

/-- The nodes whose key has a value, by the nearest key manager: the one whose key has its text, unless the manager has
a way of its own to find all of them. -/
def nodesByKey (ev : Evaluator) (key : String) (d : Datum) : Eval (List Pointer) :=
  match ev.context.keyManager? with
  | some (.hosted _ (some all)) => ev.askPointers all [.text key, d]
  | _ => do pure (← ev.pointerByKey key (d.toText (← get))).toList

/-- The node with an identifier, by the nearest identity manager. -/
def pointerById (ev : Evaluator) (id : String) : Eval (Option Pointer) :=
  match ev.context.identityManager? with
  | none => throw (.evaluation .noIdentityManager)
  | some (.path template) => ev.pointerAlong template id
  | some (.hosted handle) => ev.askPointer handle [.text id]

end Evaluator

end NodePath
