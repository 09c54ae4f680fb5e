/-
# NodePath.Text.Slice — parts of texts

* §A  Searching: the first place where one text is in another, and what stands before and behind it.
* §B  Windows: the characters at some positions, which count from one.
* §C  Replacing single characters.
-/
import NodePath.Number.Binary

namespace NodePath.Text

/-! ## §A  Searching -/

/-- What stands before and behind the first place where `t` is in a text. The empty text is at the start of
every text. -/
def cut? (t : List Char) : List Char → Option (List Char × List Char)
  | [] => if t.isEmpty then some ([], []) else none
  | c :: cs =>
    if t.isPrefixOf (c :: cs) then some ([], (c :: cs).drop t.length)
    else (cut? t cs).map fun p => (c :: p.1, p.2)

/-- What stands before the first place where `t` is; nothing if it is nowhere. -/
def before (t cs : List Char) : List Char := ((cut? t cs).map (·.1)).getD []

/-- What stands behind the first place where `t` is; nothing if it is nowhere. -/
def behind (t cs : List Char) : List Char := ((cut? t cs).map (·.2)).getD []

/-! ## §B  Windows -/

/-- The characters from one index to another, if these are two indices of `cs` in this order. -/
def slice? (start stop : Nat) (cs : List Char) : Option (List Char) :=
  if start ≤ stop ∧ stop ≤ cs.length then some ((cs.drop start).take (stop - start)) else none

/-- The index of the position that a double is cut to. Positions count from one: nothing is before the first. -/
def index? (x : Float) : Option Nat :=
  match Number.toIndex x with
  | 0 => none
  | i + 1 => some i

/-- The characters from a position on; before the first one, all of them. -/
def suffix? (first : Float) (cs : List Char) : Option (List Char) := do
  let i ← index? (Number.maximum first 1)
  slice? (min i cs.length) cs.length cs

/-- The characters from a position on, as many as `length` says, if it says so. Both numbers are rounded; a position
that is no number selects nothing, and a length that is none counts as zero. There is no result when a position is
needed that is before the first, or a slice that `cs` does not have. -/
def substring? (cs : List Char) (position : Float) (length : Option Float) : Option (List Char) :=
  if position.isNaN then some []
  else
    let first := Number.roundHalfUp position
    let behind := Number.ofNat cs.length + 1
    if first > behind then some []
    else
      match length with
      | none => suffix? first cs
      | some n =>
        let n := if n.isNaN then 0 else Number.roundHalfUp n
        let stop := first + n
        if n < 0 then some []
        else if stop < 1 then some []
        else if stop > behind then suffix? first cs
        else do
          let i ← index? (Number.maximum first 1)
          let j ← index? stop
          slice? i (max j i) cs

/-! ## §C  Single characters -/

/-- Each character of `cs` that is in `old` replaced by that at the same place of `new`, and left out if there
is none. The first place in `old` counts. -/
def translate (old new cs : List Char) : List Char :=
  cs.filterMap fun c =>
    match old.findIdx? (· == c) with
    | some i => new[i]?
    | none => some c

end NodePath.Text
