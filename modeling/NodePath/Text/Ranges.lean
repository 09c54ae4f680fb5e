/-
# NodePath.Text.Ranges — classes of characters as lists of ranges

A class of characters that a character standard lists is kept here as an array of closed ranges of
scalar values, in ascending order. **inRanges** is the one look-up; the modules beside this one hold one
property each, and answer the characters below U+0080 without a look-up.
-/

namespace NodePath.Text

/-- **Ranges** is a class of characters: the scalar values between the two ends of some pair. -/
abbrev Ranges := Array (Nat × Nat)

/-- Whether a scalar value lies in one of the ranges. -/
def inRanges (ranges : Ranges) (n : Nat) : Bool := ranges.any fun r => r.1 ≤ n && n ≤ r.2

end NodePath.Text
