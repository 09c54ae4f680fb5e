/-
# NodePath.Json.Basic — documents

**Json** is the data of one document: the scalars, arrays, and objects whose members keep the order in
which they were first written. A number is either an integer that a machine word of 64 bits holds or a
double; the two are different documents even where they are the same number.

* §A  The type.
* §B  Members of an object: look-up, replacement in place, removal.
* §C  Integers and doubles as numbers.
-/
import NodePath.Number.Binary

namespace NodePath

/-! ## §A  The type -/

/-- **Json** is a document or a part of one. -/
inductive Json where
  | null
  | bool (b : Bool)
  /-- An integer from `-2^63` to `2^64 - 1`. -/
  | int (i : Int)
  | double (x : Float)
  | text (s : String)
  | array (items : List Json)
  | object (members : List (String × Json))
deriving Inhabited, Repr

namespace Json

/-- Whether this is an array. -/
def isArray : Json → Bool
  | array _ => true
  | _ => false

/-- Whether this is an array or an object. -/
def isBranching : Json → Bool
  | array _ => true
  | object _ => true
  | _ => false

mutual
/-- **height** bounds how many steps down to a member or an element a document allows. -/
def height : Json → Nat
  | array items => heightItems items + 1
  | object members => heightMembers members + 1
  | _ => 1
termination_by structural j => j
/-- The greatest height of some elements. -/
def heightItems : List Json → Nat
  | [] => 0
  | j :: js => max j.height (heightItems js)
termination_by structural js => js
/-- The greatest height of some members. -/
def heightMembers : List (String × Json) → Nat
  | [] => 0
  | (_, j) :: ms => max j.height (heightMembers ms)
termination_by structural ms => ms
end

mutual
/-- **size** is the number of values in a document, itself included. -/
def size : Json → Nat
  | array items => sizeItems items + 1
  | object members => sizeMembers members + 1
  | _ => 1
termination_by structural j => j
/-- The size of some elements together. -/
def sizeItems : List Json → Nat
  | [] => 0
  | j :: js => j.size + sizeItems js
termination_by structural js => js
/-- The size of some members together. -/
def sizeMembers : List (String × Json) → Nat
  | [] => 0
  | (_, j) :: ms => j.size + sizeMembers ms
termination_by structural ms => ms
end

/-! ## §B  Members of an object -/

/-- **Members** are the members of an object in their order. -/
abbrev Members := List (String × Json)

/-- The value of the member named `key`. -/
def Members.get? (ms : Members) (key : String) : Option Json :=
  (ms.find? fun m => m.1 == key).map (·.2)

/-- The place of the member named `key`. -/
def Members.position? (ms : Members) (key : String) : Option Nat := ms.findIdx? fun m => m.1 == key

/-- Gives the member named `key` a value: in its place if there is such a member, else at the end. -/
def Members.set (key : String) (value : Json) : Members → Members
  | [] => [(key, value)]
  | m :: ms => if m.1 == key then (key, value) :: ms else m :: Members.set key value ms

/-- Takes the member named `key` out; the others keep their order. -/
def Members.erase (key : String) : Members → Members
  | [] => []
  | m :: ms => if m.1 == key then ms else m :: Members.erase key ms

/-- Members written one after the other: of those with one name the last value stands at the place of
the first. -/
def Members.ofWritten (written : Members) : Members :=
  written.foldl (fun ms m => Members.set m.1 m.2 ms) []

/-! ## §C  Numbers -/

/-- The number that a document is, as a double. -/
def toFloat? : Json → Option Float
  | int i => some (Number.ofInt i)
  | double x => some x
  | _ => none

/-- Whole numbers of smaller magnitude than this are written as integers. -/
def wholeBound : Nat := Nat.pow 2 53

/-- A double as a document: an integer if it is whole and of magnitude below `2^53`, so the negative
zero becomes `0`; no value at all if it is not finite. -/
def ofFloat (x : Float) : Json :=
  if !Number.isFinite x then null
  else
    let n := Number.truncate x
    if Number.isWhole x && n.natAbs < wholeBound then int n else double x

end Json

end NodePath
