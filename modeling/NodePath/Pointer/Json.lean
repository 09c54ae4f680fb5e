/-
# NodePath.Pointer.Json — places in documents as nodes

An object is an element whose members are its children; members that are no arrays are its attributes,
too. An array that is a member is flattened: each of its elements is a child with the name of the member, so
`items[2]` is the second element. The elements of any other array are children without a name, and are
addressed as `node()[n]`.

Everything here is said of the document `root`, the part at the empty path.

* §A  Presence and value.
* §B  Children and attributes.
* §C  Paths.
* §D  The order of children.
-/
import NodePath.Expr.Input
import NodePath.Pointer.Basic

namespace NodePath.JsonRef

/-! ## §A  Presence and value -/

/-- The part of the document that is addressed. -/
def part? (r : JsonRef) (root : Json) : Option Json := root.at? r.path

/-- The value of the node; absent ones have none. -/
def value (r : JsonRef) (root : Json) : Datum := ((r.part? root).map Datum.ofJson).getD .null

/-- Whether the node is no array and no object. -/
def isLeaf (r : JsonRef) (root : Json) : Bool := !(r.part? root).any Json.isBranching

/-! ## §B  Children and attributes -/

/-- The places of the elements of an array with `n` elements, below `above`. -/
def elementsBelow (above : List Segment) (n : Nat) : List (List Segment) :=
  (List.range n).map fun i => above ++ [.index i]

/-- Where the children of a part lie. `member` says that the part itself is a member of an object: if it
is an array, its elements are children of that object instead. -/
def childPaths (member : Bool) : Json → List (List Segment)
  | .object ms =>
    ms.flatMap fun m =>
      match m.2 with
      | .array items => elementsBelow [.key m.1] items.length
      | _ => [[.key m.1]]
  | .array items => if member then [] else elementsBelow [] items.length
  | _ => []

/-- Where the attributes of a part lie. -/
def attributePaths : Json → List (List Segment)
  | .object ms => (ms.filter (!·.2.isArray)).map fun m => [.key m.1]
  | _ => []

/-- Whether the place is a member of an object. -/
def isMember (r : JsonRef) : Bool :=
  match r.path.getLast? with
  | some (.key _) => true
  | _ => false

/-- **children** are the children of a place, in order. -/
def children (r : JsonRef) (root : Json) : List JsonRef :=
  if r.asAttribute then []
  else
    match r.part? root with
    | none => []
    | some j => (childPaths r.isMember j).map fun path => r.below path false

/-- **attributes** are the attributes of a place, in order. -/
def attributes (r : JsonRef) (root : Json) : List JsonRef :=
  if r.asAttribute then []
  else
    match r.part? root with
    | none => []
    | some j => (attributePaths j).map fun path => r.below path true

/-! ## §C  Paths -/

/-- Whether characters are a name. -/
def isName : List Char → Bool
  | [] => false
  | c :: cs => isNameStart c && cs.all isNameChar

/-- Whether a key can stand as a name in a path: it is a name, or two names with a colon. -/
def isQualifiedName (key : String) : Bool :=
  match QName.splitColon key.toList with
  | some (q, l) => isName q && isName l
  | none => isName key.toList

/-- The step to a key: its name, or a test of the name when it cannot stand in a path. -/
def keyStep (key : String) : String :=
  if isQualifiedName key then key
  else if key.toList.contains '\'' then "*[name()=\"" ++ key ++ "\"]"
  else "*[name()='" ++ key ++ "']"

/-- An index as a position. -/
def positionStep (i : Nat) : String := "[" ++ toString (i + 1) ++ "]"

/-- The steps of a path. `asAttribute` says that the last key is an attribute, and `onContainer` that an
index at the very front counts the members of the container that holds the document. -/
def stepsText (asAttribute onContainer : Bool) : List Segment → String
  | [] => ""
  | .key k :: .index i :: path =>
    "/" ++ keyStep k ++ positionStep i ++ stepsText asAttribute false path
  | .key k :: path =>
    (if asAttribute && path.isEmpty then "/@" else "/") ++ keyStep k ++ stepsText asAttribute false path
  | .index i :: path =>
    (if onContainer then positionStep i else "/node()" ++ positionStep i)
      ++ stepsText asAttribute false path

/-- **pathText** is a path that leads to the place. -/
def pathText (r : JsonRef) : String :=
  let start :=
    match r.base with
    | some v => "$" ++ v.name.written
    | none => ""
  let text := start ++ stepsText r.asAttribute r.base.isSome r.path
  if text.isEmpty then "/" else text

/-! ## §D  The order of children -/

/-- The rank of a node below the place `r`: attributes before children, both by the place of their member,
and the elements of one member by index. A member that is gone comes last. -/
def rank (r : JsonRef) (root : Json) (child : JsonRef) : Nat × Option Nat × Nat :=
  match child.path.drop r.path.length with
  | [] => (0, some 0, 0)
  | .index i :: _ => (1, some i, 0)
  | .key k :: more =>
    let place :=
      match r.part? root with
      | some (.object ms) => Json.Members.position? ms k
      | _ => none
    let index :=
      match more with
      | .index i :: _ => i
      | _ => 0
    (if child.asAttribute then 0 else 1, place, index)

/-- Comparison of places in an object, where a missing one comes last. -/
def comparePlaces : Option Nat → Option Nat → Ordering
  | some m, some n => compare m n
  | some _, none => .lt
  | none, some _ => .gt
  | none, none => .eq

/-- Comparison of ranks. -/
def compareRanks (a b : Nat × Option Nat × Nat) : Ordering :=
  ((compare a.1 b.1).then (comparePlaces a.2.1 b.2.1)).then (compare a.2.2 b.2.2)

/-- The order of two nodes below the place `r`. -/
def compareChildren (r : JsonRef) (root : Json) (a b : JsonRef) : Ordering :=
  compareRanks (r.rank root a) (r.rank root b)

end NodePath.JsonRef
