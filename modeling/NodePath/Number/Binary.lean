/-
# NodePath.Number.Binary — a double as an integer times a power of two

Everything this library says about the digits of a number, about its whole part and about its
remainders is said in exact arithmetic. The bridge is **Binary**: the magnitude of a finite double is
`significand * 2 ^ exponent`, read off its 64 bits, and from there on only `Nat` and `Int` are used.

* §A  Reading the bits: `Binary.ofBits`, `isNegative`, `isFinite`.
* §B  The whole part: `Binary.whole`, `Binary.isWhole`, and the roundings `floor`, `ceiling` and
  `roundHalfUp` built on it.
* §C  Integers back to doubles, and `remainder`, the exact remainder of a division that truncates.
-/

namespace NodePath.Number

/-! ## §A  Reading the bits -/

/-- **Binary** is the magnitude of a finite double, `significand * 2 ^ exponent`. `narrowBelow` marks
the powers of two, whose neighbour below is only half as far away as the neighbour above. -/
structure Binary where
  significand : Nat
  exponent : Int
  narrowBelow : Bool
deriving DecidableEq, Repr

/-- The magnitude that 64 bits stand for. The bits of an infinity or of no number have no magnitude:
callers ask `isFinite` first. -/
def Binary.ofBits (bits : UInt64) : Binary :=
  let e := ((bits >>> 52) &&& 0x7FF).toNat
  let f := (bits &&& 0xFFFFFFFFFFFFF).toNat
  if e == 0 then ⟨f, -1074, false⟩ else ⟨Nat.pow 2 52 + f, (e : Int) - 1075, f == 0 && e > 1⟩

/-- The magnitude of `x`. -/
def magnitude (x : Float) : Binary := Binary.ofBits x.toBits

/-- Whether the sign bit is set; it is for the negative zero. -/
def isNegative (x : Float) : Bool := x.toBits >>> 63 == 1

/-- Whether `x` is neither an infinity nor without a value. -/
def isFinite (x : Float) : Bool := ((x.toBits >>> 52) &&& 0x7FF) != 0x7FF

/-! ## §B  The whole part -/

/-- The magnitude without its fraction. -/
def Binary.whole (b : Binary) : Nat :=
  match b.exponent with
  | .ofNat e => b.significand * Nat.pow 2 e
  | .negSucc e => b.significand / Nat.pow 2 (e + 1)

/-- Whether nothing stands behind the point. -/
def Binary.isWhole (b : Binary) : Bool :=
  match b.exponent with
  | .ofNat _ => true
  | .negSucc e => b.significand % Nat.pow 2 (e + 1) == 0

/-- Whether `x` is finite and has no fraction. -/
def isWhole (x : Float) : Bool := isFinite x && (magnitude x).isWhole

/-- `x` without its fraction, as an integer; zero when `x` is not finite. -/
def truncate (x : Float) : Int :=
  if isFinite x then
    let n := (magnitude x).whole
    if isNegative x then -(n : Int) else n
  else 0

/-- The double nearest to a natural number. -/
def ofNat (n : Nat) : Float := Float.ofScientific n false 0

/-- The double nearest to an integer; zero is the positive one. -/
def ofInt : Int → Float
  | .ofNat n => ofNat n
  | .negSucc n => -ofNat (n + 1)

/-- The greatest whole number that is not above `x`. What has no fraction is its own floor, so the
negative zero and the infinities stay as they are. -/
def floor (x : Float) : Float :=
  if !isFinite x || isWhole x then x
  else
    let n := (magnitude x).whole
    if isNegative x then -ofNat (n + 1) else ofNat n

/-- The least whole number that is not below `x`; above `-1` and below `0` it is the negative zero. -/
def ceiling (x : Float) : Float :=
  if !isFinite x || isWhole x then x
  else
    let n := (magnitude x).whole
    if isNegative x then -ofNat n else ofNat (n + 1)

/-- Rounding to the nearest whole number, a half going up. What is not finite stays as it is. -/
def roundHalfUp (x : Float) : Float := if isFinite x then floor (x + 0.5) else x

/-- The greater of two doubles; the other one when one is no number. -/
def maximum (x y : Float) : Float := if x.isNaN || x < y then y else x

/-! ## §C  Back from integers, and remainders -/

/-- The bound that a whole number is cut to when it is taken as a position or an index. -/
def greatestIndex : Nat := Nat.pow 2 64 - 1

/-- The whole part of `x` as an index: nothing below zero, and nothing above `greatestIndex`. -/
def toIndex (x : Float) : Nat :=
  if x.isNaN then 0
  else if isFinite x then min (truncate x).toNat greatestIndex
  else if isNegative x then 0 else greatestIndex

/-- The double `n * 2 ^ e`, when it is one. -/
def ofBinary (n : Nat) (e : Int) : Float :=
  match e with
  | .ofNat e => ofNat (n * Nat.pow 2 e)
  | .negSucc e => Float.ofScientific (n * Nat.pow 5 (e + 1)) true (e + 1)

/-- The remainder of `x` by `y` when the quotient is truncated. It has the sign of `x`, and it is exact:
both magnitudes are brought to the smaller of the two exponents and divided as naturals. -/
def remainder (x y : Float) : Float :=
  if x.isNaN || y.isNaN || !isFinite x || y == 0 then 0 / 0
  else if !isFinite y || x == 0 then x
  else
    let a := magnitude x
    let b := magnitude y
    let e := min a.exponent b.exponent
    let dividend := a.significand * Nat.pow 2 (a.exponent - e).toNat
    let divisor := b.significand * Nat.pow 2 (b.exponent - e).toNat
    let m := ofBinary (dividend % divisor) e
    if isNegative x then -m else m

end NodePath.Number
