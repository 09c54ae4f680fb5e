/-
# NodePath.Numeral — numbers as texts of the expression language

The expression language has one text for each number and reads more texts than it writes.

* §A  `numeral`: whole numbers that a machine integer of 64 bits holds are written in full, so the
  negative zero is `0`; all others by their shortest digits without an exponent.
* §B  `numberOfText`: a numeral between blanks, or one of the words for the values without digits. Text
  that is neither is no number.
-/
import NodePath.Number.Layout
import NodePath.Number.Reading
import NodePath.Text.Blank

namespace NodePath

/-! ## §A  Writing -/

/-- **numeral** is the text of a number. -/
def numeral (x : Float) : String :=
  if x.isNaN then "NaN"
  else if !Number.isFinite x then (if Number.isNegative x then "-Infinity" else "Infinity")
  else
    let n := Number.truncate x
    let bound : Int := Nat.pow 2 63
    if Number.isWhole x && -bound ≤ n && n < bound then toString n else Number.plain.render x

/-! ## §B  Reading -/

/-- The value that is no number. -/
def notANumber : Float := 0 / 0

/-- The value above all numbers. -/
def infinity : Float := 1 / 0

/-- **numberOfText** is the number that a text denotes. -/
def numberOfText (s : String) : Float :=
  let cs := Text.trim s.toList
  if cs == "Infinity".toList || cs == "+Infinity".toList then infinity
  else if cs == "-Infinity".toList then -infinity
  else
    match Number.readNumeral? cs with
    | some n => n.toFloat
    | none => notANumber

end NodePath
