/-
# NodePath.Function.Stock — a host with a stock of small functions

A program that embeds the library brings functions of its own. This host knows a stock of them: most show
what a function sees of its call and of its arguments, so that calls can be watched. A handle of no function
stands for one that answers null.
-/
import NodePath.Function.Call

namespace NodePath.Stock

/-- The first argument; null if there is none. -/
def first (args : List Value) : Value := Call.argument args 0

/-- A function of the first argument, where what is not there to be looked at counts as `usual`. -/
def onFirst (usual : Datum) (f : Store → Datum → Value) : Action := fun call args => do
  let d ← call.glance (first args)
  pure (f (← get) (d.getD usual))

/-- The arithmetic number of the first argument. -/
def double : Action := onFirst (.number notANumber) fun st d => .number (d.toDouble st)

/-- The kind of a value in one word. -/
def kindOf : Value → String
  | .nodes _ => "context"
  | .datum .null => "null"
  | .datum (.boolean _) => "boolean"
  | .datum (.number _) => "number"
  | .datum (.text _) => "string"
  | .datum (.object _) => "object"
  | .datum (.pointer _) => "pointer"

/-- The path of the node that a function is called at; empty without a node. -/
def nodePath : Action := fun call _ => do
  pure (.text ((call.node.map (·.pathText (← get))).getD ""))

/-- The value of the expression that the first argument is, in the context of the call. -/
def evaluate : Action := fun call args => do
  let d := (← call.glance (first args)).getD .null
  pure (.datum (← call.evaluate (d.toText (← get))))

/-- The functions by their handles. -/
def action (handle : String) : Action :=
  match handle with
  | "twice" => onFirst .null fun st d => .number (d.toNumber st * 2)
  | "argc" => fun _ args => pure (.number (Number.ofNat args.length))
  | "pos" => fun call _ => pure (.number (Number.ofNat call.position))
  | "node" => nodePath
  | "type" => fun _ args => pure (.text (kindOf (first args)))
  | "string" => onFirst .null fun st d => .text (d.toText st)
  | "double" => double
  | "bool" => onFirst .null fun st d => .boolean (d.toBoolean st)
  | "json" => onFirst .null fun st d => .text (d.toJson st).write
  | "ident" => fun _ args => pure (first args)
  | "lenient" => fun call _ => pure (.boolean call.context.isLenient)
  | "eval" => evaluate
  | "unsupported" => fun _ _ => throw (.unsupported (.reported "nope"))
  | "fail" => fun _ _ => throw (.evaluation (.reported "boom"))
  | _ => fun _ _ => pure .null

end NodePath.Stock

namespace NodePath

/-- **stockHost** is the host with this stock. -/
def stockHost : Host := Stock.action

end NodePath
