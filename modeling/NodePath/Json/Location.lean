/-
# NodePath.Json.Location — places in a document

A **Segment** is one step down from a part of a document to a member or an element of it; a list of them
is a place. A place may name something that is not there: every look-up and every change can fail, and a
change that fails changes nothing.

* §A  `Segment` and `at?`.
* §B  `replace?` and `erase?`.
-/
import NodePath.Json.Basic

namespace NodePath

/-! ## §A  Look-up -/

/-- **Segment** is one step down: to the member of a name, or to the element at an index. -/
inductive Segment where
  | key (name : String)
  | index (i : Nat)
deriving DecidableEq, Repr, Inhabited

namespace Json

/-- The part one step down. -/
def child? (j : Json) (s : Segment) : Option Json :=
  match j, s with
  | object ms, .key k => Members.get? ms k
  | array items, .index i => items[i]?
  | _, _ => none

/-- **at?** is the part of a document at a place. -/
def at? : List Segment → Json → Option Json
  | [], j => some j
  | s :: path, j => (j.child? s).bind (at? path)

/-! ## §B  Change -/

/-- The document with another part one step down, where there is one. -/
def setChild? (j : Json) (s : Segment) (new : Json) : Option Json :=
  match j, s with
  | object ms, .key k => if (Members.get? ms k).isSome then some (object (Members.set k new ms)) else none
  | array items, .index i => if i < items.length then some (array (items.set i new)) else none
  | _, _ => none

/-- **replace?** is the document with `new` at a place that exists. -/
def replace? (new : Json) : List Segment → Json → Option Json
  | [], _ => some new
  | s :: path, j =>
    match j.child? s with
    | none => none
    | some c => (replace? new path c).bind (j.setChild? s)

/-- The document without the part one step down: the other members keep their order, and later elements
move up. -/
def eraseChild? (j : Json) (s : Segment) : Option Json :=
  match j, s with
  | object ms, .key k => if (Members.get? ms k).isSome then some (object (Members.erase k ms)) else none
  | array items, .index i => if i < items.length then some (array (items.eraseIdx i)) else none
  | _, _ => none

/-- **erase?** is the document without the part at a place; the whole document cannot be taken out. -/
def erase? : List Segment → Json → Option Json
  | [], _ => none
  | [s], j => j.eraseChild? s
  | s :: path, j =>
    match j.child? s with
    | none => none
    | some c => (erase? path c).bind (j.setChild? s)

end Json

end NodePath
