/-
# NodePath.Number.Reading — decimal text to the nearest double

A numeral is an optional sign, digits with an optional point somewhere before, between or after them,
and an optional exponent; at least one digit stands before the exponent, and at least one in it. What
is read is the double nearest to the exact decimal value, however many digits are written.

* §A  Runs of digits.
* §B  `Numeral` and its value.
* §C  `readNumeral?` for numerals alone, `readFloat?` for numerals and the words for the values that
  have no digits.
-/
import NodePath.Number.Binary

namespace NodePath.Number

/-! ## §A  Runs of digits -/

/-- The value of a decimal digit; zero for any other character. -/
def digitValue (c : Char) : Nat := if c.isDigit then c.toNat - 48 else 0

/-- The natural that a run of decimal digits denotes. -/
def natOfDigits (ds : List Char) : Nat := ds.foldl (fun n c => 10 * n + digitValue c) 0

/-- The longest run of digits at the front, and the rest. -/
def spanDigits (cs : List Char) : List Char × List Char :=
  (cs.takeWhile Char.isDigit, cs.dropWhile Char.isDigit)

/-! ## §B  Numerals -/

/-- **Numeral** is the value `± digits * 10 ^ exponent` before it is rounded. -/
structure Numeral where
  negative : Bool
  digits : Nat
  exponent : Int

/-- The double nearest to a numeral. Beyond a thousand places in front of or behind the point nothing
is left but an infinity or a zero, and the power of ten is not computed. -/
def Numeral.toFloat (n : Numeral) : Float :=
  let m :=
    if n.digits == 0 then 0
    else
      let leading := n.exponent + (Nat.log2 n.digits : Int) * 30103 / 100000
      if leading > 1000 then 1 / 0
      else if leading < -1000 then 0
      else
        match n.exponent with
        | .ofNat e => Float.ofScientific n.digits false e
        | .negSucc e => Float.ofScientific n.digits true (e + 1)
  if n.negative then -m else m

/-! ## §C  Reading -/

/-- An optional sign. -/
def readSign : List Char → Bool × List Char
  | '-' :: cs => (true, cs)
  | '+' :: cs => (false, cs)
  | cs => (false, cs)

/-- What may follow the digits: nothing, or an exponent up to the end of the text. -/
def readExponent? : List Char → Option Int
  | [] => some 0
  | c :: cs =>
    if c == 'e' || c == 'E' then
      let (negative, cs) := readSign cs
      let (ds, rest) := spanDigits cs
      if ds.isEmpty || !rest.isEmpty then none
      else some (if negative then -(natOfDigits ds : Int) else natOfDigits ds)
    else none

/-- The numeral that the whole text is, if it is one. -/
def readNumeral? (cs : List Char) : Option Numeral :=
  let (negative, cs) := readSign cs
  let (int, cs) := spanDigits cs
  let (frac, cs) :=
    match cs with
    | '.' :: cs => spanDigits cs
    | cs => ([], cs)
  if int.isEmpty && frac.isEmpty then none
  else (readExponent? cs).map fun e => ⟨negative, natOfDigits (int ++ frac), e - frac.length⟩

/-- The double that a text denotes: a numeral, or one of the words `nan`, `inf` and `infinity` in any
mixture of cases, with an optional sign. -/
def readFloat? (s : String) : Option Float :=
  match readNumeral? s.toList with
  | some n => some n.toFloat
  | none =>
    let (negative, cs) := readSign s.toList
    let word := String.ofList (cs.map Char.toLower)
    if word == "nan" then some (0 / 0)
    else if word == "inf" || word == "infinity" then some (if negative then -(1 / 0) else 1 / 0)
    else none

end NodePath.Number
