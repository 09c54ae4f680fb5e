/-
# NodePath.Coercion — values as texts, numbers, truth values

Four total conversions of a value. A node is converted through its value; a variable through the value it
holds, however many other variables stand between.

* §A  `held`: the value behind a chain of variables.
* §B  `toText`.
* §C  `toNumber` and `toDouble`, which differ in two places: the empty text, and truth values.
* §D  `toBoolean`.
-/
import NodePath.Json.Writer
import NodePath.Pointer.Node

namespace NodePath.Datum

/-! ## §A  Behind variables -/

/-- **held** is the value of a node, and where that is a node again, of the last one of the chain; a
chain that does not end has no value. -/
def held (d : Datum) (st : Store) : Datum :=
  match d with
  | pointer p =>
    match (p.follow st).value st with
    | pointer _ => null
    | d => d
  | d => d

/-! ## §B  Texts -/

/-- The text of a value that is no node. -/
def scalarText : Datum → String
  | null => ""
  | boolean b => if b then "true" else "false"
  | number x => numeral x
  | text s => s
  | object j => j.write
  | pointer _ => ""

/-- **toText** is the text of a value. -/
def toText (d : Datum) (st : Store) : String := (d.held st).scalarText

/-! ## §C  Numbers -/

/-- The number of a value that is no node: text is read, and the empty text is no number. -/
def scalarNumber : Datum → Float
  | number x => x
  | boolean b => if b then 1 else 0
  | text s => numberOfText s
  | d => numberOfText d.scalarText

/-- **toNumber** is the number of a value, as the function that converts to numbers gives it. -/
def toNumber (d : Datum) (st : Store) : Float := (d.held st).scalarNumber

/-- The number of a text in arithmetic: the empty text is zero. -/
def textDouble (s : String) : Float := if s.isEmpty then 0 else numberOfText s

/-- The operand of a value that is no node. Of the truth values it is the false one that is `1`. -/
def scalarDouble : Datum → Float
  | number x => x
  | boolean b => if b then 0 else 1
  | text s => textDouble s
  | d => textDouble d.scalarText

/-- **toDouble** is the number of a value in arithmetic and comparisons. -/
def toDouble (d : Datum) (st : Store) : Float := (d.held st).scalarDouble

/-! ## §D  Truth values -/

/-- The truth value of a value that is no node. -/
def scalarBoolean : Datum → Bool
  | null => false
  | boolean b => b
  | number x => !(x == 0 || x.isNaN)
  | text s => !s.isEmpty
  | object _ => true
  | pointer _ => false

/-- **toBoolean** is the truth value of a value. A node is true when it exists, whatever its value; but a
variable has the truth value of what it holds. -/
def toBoolean (d : Datum) (st : Store) : Bool :=
  match d with
  | pointer p =>
    let q := p.follow st
    if q.isVariable then
      match q.value st with
      | pointer _ => false
      | d => d.scalarBoolean
    else q.isActual st
  | d => d.scalarBoolean

end NodePath.Datum
