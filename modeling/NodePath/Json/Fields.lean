/-
# NodePath.Json.Fields — records written as documents

A record may be written as an object, by the names of its fields, or as an array, by their order. Fields
that are not written keep a usual value; what is written must be of the right type. Names that are no
fields are passed over, but a field is not to be written twice.

* §A  `fields?`.
* §B  Values of single fields.
-/
import NodePath.Json.Basic

namespace NodePath.Json

/-! ## §A  Fields -/

/-- Whether one of `names` is the name of two members. -/
def repeatsField (names : List String) (ms : Members) : Bool :=
  names.any fun n => (ms.filter (·.1 == n)).length > 1

/-- **fields?** are the written fields of a record whose fields are called `names`. -/
def fields? (names : List String) : Json → Option Members
  | object ms => if repeatsField names ms then none else some ms
  | array items => if items.length > names.length then none else some (names.zip items)
  | _ => none

/-- The value of a field: as written, or `usual`. -/
def field? {α : Type} (fields : Members) (name : String) (read : Json → Option α) (usual : α) :
    Option α :=
  match fields.get? name with
  | some j => read j
  | none => some usual

/-! ## §B  Types of fields -/

/-- A truth value. -/
def toBool? : Json → Option Bool
  | bool b => some b
  | _ => none

/-- An integer that is not negative. -/
def toNat64? : Json → Option Nat
  | int (.ofNat n) => some n
  | _ => none

/-- A text. -/
def toText? : Json → Option String
  | text s => some s
  | _ => none

/-- A text of one character. -/
def toChar? : Json → Option Char
  | text s =>
    match s.toList with
    | [c] => some c
    | _ => none
  | _ => none

end NodePath.Json
