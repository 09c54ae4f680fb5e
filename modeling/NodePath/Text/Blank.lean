/-
# NodePath.Text.Blank — white space

**isBlank** is the property `White_Space`. It is wider than the four blanks of a data format: it has the
vertical tab and the form feed, the no-break space, and the spaces of other scripts.

* §A  The property, and the characters of core's own class in it.
* §B  `trim` and `words`, which cut at it.
-/
import NodePath.Text.Ranges

namespace NodePath.Text

/-! ## §A  The property -/

/-- The characters with the property `White_Space`. -/
def blankRanges : Ranges := #[
  (0x9, 0xD), (0x20, 0x20), (0x85, 0x85), (0xA0, 0xA0), (0x1680, 0x1680), (0x2000, 0x200A),
  (0x2028, 0x2029), (0x202F, 0x202F), (0x205F, 0x205F), (0x3000, 0x3000)]

/-- Whether `c` is white space. -/
def isBlank (c : Char) : Bool := inRanges blankRanges c.toNat

/-! ## §B  Cutting at blanks -/

/-- The characters without the blanks at both ends. -/
def trim (cs : List Char) : List Char :=
  ((cs.dropWhile isBlank).reverse.dropWhile isBlank).reverse

/-- The maximal runs without a blank. `word` holds, last first, the run that is being read. -/
def wordsFrom (word : List Char) : List Char → List (List Char)
  | [] => if word.isEmpty then [] else [word.reverse]
  | c :: cs =>
    if isBlank c then
      if word.isEmpty then wordsFrom [] cs else word.reverse :: wordsFrom [] cs
    else wordsFrom (c :: word) cs

/-- **words** are the maximal runs of characters that are not blank. -/
def words (cs : List Char) : List (List Char) := wordsFrom [] cs

end NodePath.Text
