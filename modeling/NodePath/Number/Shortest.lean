/-
# NodePath.Number.Shortest — the fewest digits that read back

A finite double stands for an interval of reals: all those that round to it. **shortest** picks the
decimal in that interval with the fewest digits, and of two such decimals the nearer one. It does so
by the plain search: on the grids of one, two, … seventeen digits it looks at the two neighbours of the
value, with cross-multiplied naturals and no division by a double.

* §A  `Decimal`, an integer times a power of ten, and exact comparison with a binary value.
* §B  `Binary.readsBack`, the interval, as a test on decimals.
* §C  `Binary.shortest`, the search.
* §D  `Binary.fixed`, the value rounded to a set number of places, halves to the even neighbour.
-/
import NodePath.Number.Binary

namespace NodePath.Number

/-! ## §A  Decimals -/

/-- **Decimal** is the value `digits * 10 ^ exponent`. -/
structure Decimal where
  digits : Nat
  exponent : Int
deriving DecidableEq, Repr

/-- Which of two equally near decimals is taken. -/
inductive Tie where
  | toEven
  | away
deriving DecidableEq, Repr

/-- Exact comparison of `a * 10 ^ i` with `n * 2 ^ j`. -/
def compareScaled (a : Nat) (i : Int) (n : Nat) (j : Int) : Ordering :=
  compare (a * Nat.pow 10 i.toNat * Nat.pow 2 (-j).toNat) (n * Nat.pow 2 j.toNat * Nat.pow 10 (-i).toNat)

/-! ## §B  The interval of a value -/

/-- Whether `d` lies among the reals that round to `b`. The ends lie halfway to the neighbours and
belong to `b` exactly when its significand is even. -/
def Binary.readsBack (b : Binary) (d : Decimal) : Bool :=
  let low := if b.narrowBelow then 4 * b.significand - 1 else 4 * b.significand - 2
  let high := 4 * b.significand + 2
  let ends := b.significand % 2 == 0
  let above := compareScaled d.digits d.exponent low (b.exponent - 2)
  let below := compareScaled d.digits d.exponent high (b.exponent - 2)
  (above == .gt || (ends && above == .eq)) && (below == .lt || (ends && below == .eq))

/-! ## §C  The search -/

/-- The first exponent from `k` on, within `fuel` steps, whose power of ten is above `b`. -/
def Binary.scaleFrom (b : Binary) : Nat → Int → Int
  | 0, k => k
  | fuel + 1, k =>
    if compareScaled 1 k b.significand b.exponent == .gt then k else b.scaleFrom fuel (k + 1)

/-- The least exponent whose power of ten is above `b`: an estimate from the binary logarithm, and at
most a few steps up from there. -/
def Binary.scale (b : Binary) : Int :=
  b.scaleFrom 8 (((Nat.log2 b.significand : Int) + b.exponent) * 30103 / 100000 - 1)

/-- The candidate with `places` digits, if one of the two grid neighbours of `b` reads back. -/
def Binary.candidate (b : Binary) (tie : Tie) (grid : Int) : Option Decimal :=
  let num := b.significand * Nat.pow 2 b.exponent.toNat * Nat.pow 10 (-grid).toNat
  let den := Nat.pow 2 (-b.exponent).toNat * Nat.pow 10 grid.toNat
  let q := num / den
  let down : Decimal := ⟨q, grid⟩
  let up : Decimal := ⟨q + 1, grid⟩
  match b.readsBack down, b.readsBack up with
  | false, false => none
  | true, false => some down
  | false, true => some up
  | true, true =>
    match compare (2 * num) ((2 * q + 1) * den), tie with
    | .lt, _ => some down
    | .gt, _ => some up
    | .eq, .away => some up
    | .eq, .toEven => some (if q % 2 == 0 then down else up)

/-- The first candidate on the grids of `places`, `places + 1`, … digits, at most `fuel` of them. -/
def Binary.search (b : Binary) (tie : Tie) (scale : Int) : Nat → Nat → Option Decimal
  | 0, _ => none
  | fuel + 1, places =>
    match b.candidate tie (scale - places) with
    | some d => some d
    | none => b.search tie scale fuel (places + 1)

/-- The value of `b` itself as a decimal. -/
def Binary.exact (b : Binary) : Decimal :=
  match b.exponent with
  | .ofNat e => ⟨b.significand * Nat.pow 2 e, 0⟩
  | .negSucc e => ⟨b.significand * Nat.pow 5 (e + 1), .negSucc e⟩

/-- Moves at most `fuel` trailing zeros of the digits into the exponent. -/
def Decimal.strip : Nat → Decimal → Decimal
  | 0, d => d
  | fuel + 1, d =>
    if d.digits != 0 && d.digits % 10 == 0 then Decimal.strip fuel ⟨d.digits / 10, d.exponent + 1⟩
    else d

/-- **shortest** is the decimal with the fewest digits that reads back as `b`, the nearest of those
with that many digits. Zero is the single digit zero. -/
def Binary.shortest (b : Binary) (tie : Tie) : Decimal :=
  if b.significand == 0 then ⟨0, 0⟩
  else ((b.search tie b.scale 17 1).getD b.exact).strip 400

/-! ## §D  A set number of places -/

/-- `num / den` rounded to the nearest natural, a half going to the even neighbour. -/
def roundDivEven (num den : Nat) : Nat :=
  let q := num / den
  match compare (2 * (num % den)) den with
  | .lt => q
  | .gt => q + 1
  | .eq => if q % 2 == 0 then q else q + 1

/-- The value of `b` in units of the last of `places` decimal places, rounded. -/
def Binary.fixed (b : Binary) (places : Nat) : Nat :=
  match b.exponent with
  | .ofNat e => b.significand * Nat.pow 2 e * Nat.pow 10 places
  | .negSucc e => roundDivEven (b.significand * Nat.pow 10 places) (Nat.pow 2 (e + 1))

end NodePath.Number
