/-
# NodePath.Function.Call — what an extension function is given

An extension function gets its arguments as values and a **Call**, through which it sees the evaluation that
called it. Node-sets among the arguments have not been looked at yet; the call knows how to pull nodes from
them.
-/
import NodePath.Coercion
import NodePath.Context.Basic
import NodePath.Cursor.Basic

namespace NodePath

/-- **Call** is the evaluation that calls a function. -/
structure Call where
  context : Context
  /-- The context node and its position, if there is a node. -/
  node : Option Pointer
  position : Nat
  /-- The value of an expression, given as text, in the context of the call. -/
  evaluate : String → Eval Datum
  /-- The first node of a node-set. -/
  first : Cursor → Eval (Option Pointer)
  /-- All nodes of a node-set. -/
  nodes : Cursor → Eval (List Pointer)

/-- What a function does. -/
abbrev Action := Call → List Value → Eval Value

/-- **Host** is what the functions of the host program do, by their handles. Those that look nodes up for `key` and `id`
are among them. -/
abbrev Host := String → Action

namespace Call

/-- An argument; a missing one is null. -/
def argument (args : List Value) (i : Nat) : Value := args[i]?.getD .null

/-- The node, if there is one, as a value. -/
def ofNode : Option Pointer → Datum
  | some p => .pointer p
  | none => .null

/-- A value with a node-set replaced by its first node. -/
def collapse (call : Call) : Value → Eval Datum
  | .datum d => pure d
  | .nodes c => do pure (ofNode (← call.first c))

/-- The text of a value. -/
def text (call : Call) (v : Value) : Eval String := do pure ((← call.collapse v).toText (← get))

/-- A value with a node-set replaced by its first node; there is none when the node-set is empty or fails. -/
def glance (call : Call) : Value → Eval (Option Datum)
  | .datum d => pure (some d)
  | .nodes c => tryCatch (do pure ((← call.first c).map .pointer)) fun _ => pure none

end Call

end NodePath
