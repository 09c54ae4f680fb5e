/-
# NodePath.Context.Typed — values of a wanted shape

A caller may ask for a value of some shape. The value is taken as a document; if that does not have the shape
and is a text, the text is read as a document; and if that does not help either, the text of the value is
tried.

* §A  `Shape`, and the document of a shape that a document is read as.
* §B  `getValueAs`.
-/
import NodePath.Context.Read

namespace NodePath

/-! ## §A  Shapes -/

/-- **Shape** is what a value is wanted to be. -/
inductive Shape where
  /-- An integer between two bounds. -/
  | integer (least most : Int)
  | double
  | boolean
  | text
  /-- Null, or what `s` says. -/
  | optional (s : Shape)
  /-- An array whose elements are what `s` says. -/
  | list (s : Shape)
  | document
deriving Repr, Inhabited

namespace Shape

/-- **read?** is the document as which a document of the shape is read. A number with a point is no integer,
but an integer is a double. -/
def read? : Shape → Json → Option Json
  | integer least most, .int i => if least ≤ i && i ≤ most then some (.int i) else none
  | double, j => j.toFloat?.map .double
  | boolean, .bool b => some (.bool b)
  | text, .text s => some (.text s)
  | optional _, .null => some .null
  | optional s, j => s.read? j
  | list s, .array items => (items.mapM s.read?).map .array
  | document, j => some j
  | _, _ => none

/-- The integers of 64 bits. -/
def int64 : Shape := integer (-(Nat.pow 2 63 : Int)) ((Nat.pow 2 63 : Int) - 1)

/-- The integers of 8 bits that are not negative. -/
def byte : Shape := integer 0 255

/-- The document of the shape that a text is read as. -/
def readText? (s : Shape) : Json → Option Json
  | .text t => (Json.read? t).bind s.read?
  | _ => none

/-- The document of the shape that a value is taken for. -/
def ofDatum? (s : Shape) (st : Store) (d : Datum) : Option Json :=
  let j := d.toJson st
  s.read? j <|> s.readText? j <|> s.read? (.text (d.toText st))

end Shape

/-! ## §B  Reading -/

/-- **getValueAs** is the value that a text reads, as a document of a shape. -/
def Context.getValueAs (c : Context) (host : Host) (text : String) (s : Shape) : Eval Json := do
  let d ← c.getValue host text
  match s.ofDatum? (← get) d with
  | some j => pure j
  | none => throw (.typeConversion text)

end NodePath
