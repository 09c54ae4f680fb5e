/-
# NodePath.Function.Builtin — the extension functions of every context

* §A  Letter case.
* §B  `distinct-values`.
* §C  `or-default`.
* §D  `from-json`, and the dispatch.
-/
import NodePath.Function.Call
import NodePath.Json.Reader
import NodePath.Text.Case

namespace NodePath

namespace Extension

/-! ## §A  Letter case -/

/-- A function of the text of its argument. -/
def onText (f : List Char → List Char) : Action := fun call args => do
  pure (.text (String.ofList (f (← call.text (Call.argument args 0)).toList)))

/-! ## §B  Distinct values -/

/-- The members of a value that is no node. -/
def members (st : Store) : Datum → List Json
  | .object (.array items) => items
  | .null => []
  | d => [d.toJson st]

/-- The members of a value: the nodes of a node-set, or the elements of an array. -/
def membersOf (call : Call) : Value → Eval (List Json)
  | .nodes c => do
    let ps ← call.nodes c
    let st ← get
    pure (ps.map fun p => (p.openedValue st).toJson st)
  | .datum (.pointer p) => do
    let st ← get
    pure (members st (p.openedValue st))
  | .datum d => do pure (members (← get) d)

/-- Documents with each one kept only where it stands first. They are told apart by their texts. -/
def distinct (js : List Json) : List Json :=
  (js.foldl (fun kept j => if kept.any (·.write == j.write) then kept else j :: kept) []).reverse

/-- The array of the distinct members of a value. -/
def distinctValues : Action := fun call args => do
  pure (.datum (.object (.array (distinct (← membersOf call (Call.argument args 0))))))

/-! ## §C  Defaults -/

/-- Whether a value is worth keeping: it is neither null nor the empty text nor false. -/
def isPresent (st : Store) : Datum → Bool
  | .null => false
  | .text s => !s.isEmpty
  | d => d.toBoolean st

/-- The value of a node in the stead of the node. -/
def valueOf (st : Store) : Value → Value
  | .datum (.pointer p) => .datum (p.openedValue st)
  | v => v

/-- The first argument if it is present, else the second. -/
def orDefault : Action := fun call args => do
  let first ← call.collapse (Call.argument args 0)
  let st ← get
  pure (valueOf st (if isPresent st first then .datum first else Call.argument args 1))

/-! ## §D  Documents from texts -/

/-- The document that the text of the argument is. -/
def fromJson : Action := fun call args => do
  match Json.read? (← call.text (Call.argument args 0)) with
  | some j => pure (.datum (.ofJson j))
  | none => throw .json

end Extension

/-- **Builtin.action** is what a function does. -/
def Builtin.action : Builtin → Action
  | lowerCase => Extension.onText Text.lower
  | upperCase => Extension.onText Text.upper
  | distinctValues => Extension.distinctValues
  | orDefault => Extension.orDefault
  | fromJson => Extension.fromJson

end NodePath
