/-
# NodePath.Number.Layout — how chosen digits are written

Which digits stand for a number is settled by `Binary.shortest`; what is left are decisions of taste
that differ from output to output: from where on an exponent is written, whether a whole number keeps a
point, what the values without digits are called. **Layout** is the record of those decisions, and
`Layout.render` the one function that follows them. Each output of the library has one `Layout` value,
defined beside the function that writes that output.

* §A  Digits as text.
* §B  `Layout` and `Layout.render`.
* §C  `plain`, the layout without any exponent.
-/
import NodePath.Number.Shortest

namespace NodePath.Number

/-! ## §A  Digits as text -/

/-- The decimal digits of `n`. -/
def digitsOf (n : Nat) : List Char := Nat.toDigits 10 n

/-- `n` zeros. -/
def zeros (n : Nat) : List Char := List.replicate n '0'

/-- `n` with a point before its last `places` digits, and zeros in front where they are missing;
without places there is no point. -/
def withPlaces (n places : Nat) : List Char × List Char :=
  let ds := digitsOf n
  let ds := zeros (places + 1 - ds.length) ++ ds
  (ds.take (ds.length - places), ds.drop (ds.length - places))

/-! ## §B  Layouts -/

/-- **Layout** says how a number is written once its digits are chosen. -/
structure Layout where
  /-- Which of two equally near shortest decimals is taken. -/
  tie : Tie
  /-- The exponents of the leading digit for which no exponent is written. -/
  positional : Int → Bool
  /-- What follows a whole number that is written without an exponent. -/
  wholeTail : String
  /-- What stands before an exponent that is not negative. -/
  exponentMark : String
  nan : String
  infinity : String

/-- The digits with the point in its place and no exponent. -/
def Layout.renderPositional (l : Layout) (d : Decimal) : String :=
  match d.exponent with
  | .ofNat e => String.ofList (digitsOf d.digits ++ zeros (if d.digits == 0 then 0 else e)) ++ l.wholeTail
  | .negSucc e =>
    let (int, frac) := withPlaces d.digits (e + 1)
    String.ofList (int ++ '.' :: frac)

/-- One digit, the others behind a point, and the exponent of the first one. -/
def Layout.renderExponent (l : Layout) (ds : List Char) (leading : Int) : String :=
  let frac := ds.drop 1
  let mark := if leading < 0 then "e-" else l.exponentMark
  String.ofList (ds.take 1 ++ (if frac.isEmpty then [] else '.' :: frac)) ++ mark
    ++ String.ofList (digitsOf leading.natAbs)

/-- **render** writes `x` as the layout says. -/
def Layout.render (l : Layout) (x : Float) : String :=
  if x.isNaN then l.nan
  else
    let sign := if isNegative x then "-" else ""
    if !isFinite x then sign ++ l.infinity
    else
      let d := (magnitude x).shortest l.tie
      let ds := digitsOf d.digits
      let leading := d.exponent + ds.length - 1
      if d.digits == 0 || l.positional leading then sign ++ l.renderPositional d
      else sign ++ l.renderExponent ds leading

/-! ## §C  The plain layout -/

/-- The **plain** layout never writes an exponent and adds nothing to a whole number. -/
def plain : Layout where
  tie := .away
  positional _ := true
  wholeTail := ""
  exponentMark := "e"
  nan := "NaN"
  infinity := "inf"

end NodePath.Number
