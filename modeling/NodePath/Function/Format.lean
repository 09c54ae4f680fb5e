/-
# NodePath.Function.Format — numbers by a pattern

A pattern is text around a run of the characters `#`, `0`, `,` and `.`, and may have a second part for
negative numbers behind a semicolon. Patterns are always written with these characters; what is printed in
their stead is a matter of **DecimalSymbols**.

* §A  Symbols, and those of a locale.
* §B  `SubPattern`, one part of a pattern.
* §C  The digits of a magnitude under a pattern.
* §D  `formatNumber`.
-/
import NodePath.Error
import NodePath.Json.Fields
import NodePath.Number.Layout
import NodePath.Number.Reading

namespace NodePath

/-! ## §A  Symbols -/

/-- **DecimalSymbols** are the characters and words that numbers are printed with. -/
structure DecimalSymbols where
  decimalSeparator : Char := '.'
  groupingSeparator : Char := ','
  zeroDigit : Char := '0'
  minusSign : Char := '-'
  percent : Char := '%'
  perMille : Char := '‰'
  digit : Char := '#'
  patternSeparator : Char := ';'
  infinity : String := "∞"
  nan : String := "NaN"
deriving DecidableEq, Repr, Inhabited

namespace DecimalSymbols

/-- The names of the symbols where they are written as a record. -/
def fieldNames : List String :=
  ["decimal_separator", "grouping_separator", "zero_digit", "minus_sign", "percent", "per_mille",
    "digit", "pattern_separator", "infinity", "nan"]

/-- The symbols that a record describes; those that are not mentioned are the usual ones. -/
def ofJson? (j : Json) : Option DecimalSymbols := do
  let fields ← Json.fields? fieldNames j
  let char (name : String) (c : Char) := Json.field? fields name Json.toChar? c
  let word (name : String) (s : String) := Json.field? fields name Json.toText? s
  let usual : DecimalSymbols := {}
  some
    { decimalSeparator := ← char "decimal_separator" usual.decimalSeparator
      groupingSeparator := ← char "grouping_separator" usual.groupingSeparator
      zeroDigit := ← char "zero_digit" usual.zeroDigit
      minusSign := ← char "minus_sign" usual.minusSign
      percent := ← char "percent" usual.percent
      perMille := ← char "per_mille" usual.perMille
      digit := ← char "digit" usual.digit
      patternSeparator := ← char "pattern_separator" usual.patternSeparator
      infinity := ← word "infinity" usual.infinity
      nan := ← word "nan" usual.nan }

/-- The symbols as a record. -/
def toJson (s : DecimalSymbols) : Json :=
  let char (c : Char) : Json := .text c.toString
  .object
    (fieldNames.zip
      [char s.decimalSeparator, char s.groupingSeparator, char s.zeroDigit, char s.minusSign,
        char s.percent, char s.perMille, char s.digit, char s.patternSeparator, .text s.infinity,
        .text s.nan])

/-- The languages that write a comma before the fraction and a point between groups. -/
def pointGrouping : List String := ["de", "es", "it", "nl", "pt", "da", "id", "tr", "el"]

/-- The languages that write a comma before the fraction and a no-break space between groups. -/
def spaceGrouping : List String := ["fr", "ru", "pl", "cs", "sk", "sv", "fi", "nb", "no", "uk"]

/-- The language of a locale tag: what stands before the first hyphen or underscore. -/
def languageOf (locale : String) : String :=
  String.ofList ((locale.toList.takeWhile fun c => c != '_' && c != '-').map Char.toLower)

/-- **forLocale** are the symbols of a locale tag such as `de` or `fr_FR`. -/
def forLocale (locale : String) : DecimalSymbols :=
  let language := languageOf locale
  if pointGrouping.contains language then { decimalSeparator := ',', groupingSeparator := '.' }
  else if spaceGrouping.contains language then { decimalSeparator := ',', groupingSeparator := '\u00a0' }
  else {}

end DecimalSymbols

/-! ## §B  Patterns -/

/-- **SubPattern** is one part of a pattern: the text before and behind the number, how many digits the
number has at least and at most, the size of its groups (zero for none), and what it is multiplied by. -/
structure SubPattern where
  lead : List Char
  tail : List Char
  minInt : Nat
  grouping : Nat
  minFrac : Nat
  maxFrac : Nat
  multiplier : Float

namespace SubPattern

/-- Whether a character of a pattern stands for digits. -/
def isNumberChar (c : Char) : Bool := c == '#' || c == '0' || c == ',' || c == '.'

/-- A character beside the number as it is printed. -/
def affixChar (s : DecimalSymbols) (c : Char) : Char :=
  if c == '%' then s.percent else if c == '‰' then s.perMille else c

/-- What the last percent or per mille sign of a text asks to multiply by, or else `x`. -/
def multiplierOf (x : Float) (cs : List Char) : Float :=
  cs.foldl (fun x c => if c == '%' then 100 else if c == '‰' then 1000 else x) x

/-- The characters before the first `c`, and those behind it if there is one. -/
def splitAt (c : Char) (cs : List Char) : List Char × Option (List Char) :=
  (cs.takeWhile (· != c), ((cs.dropWhile (· != c)).tail?))

/-- The number of characters behind the last comma; zero if there is none. -/
def groupSize (int : List Char) : Nat :=
  if int.contains ',' then (int.reverse.takeWhile (· != ',')).length else 0

/-- The part that a text describes. There must be a run of digit characters in it, and its fraction, if it
has one, holds neither a point nor a comma. -/
def parse (s : DecimalSymbols) (pattern : List Char) : Except Fault SubPattern :=
  let lead := pattern.takeWhile (!isNumberChar ·)
  let rest := pattern.dropWhile (!isNumberChar ·)
  let number := rest.takeWhile isNumberChar
  let tail := rest.dropWhile isNumberChar
  let (int, frac?) := splitAt '.' number
  let frac := frac?.getD []
  if number.isEmpty || frac.contains '.' || frac.contains ',' then
    .error (.malformedPattern (String.ofList pattern))
  else
    .ok
      { lead := lead.map (affixChar s)
        tail := tail.map (affixChar s)
        minInt := int.count '0'
        grouping := groupSize int
        minFrac := frac.count '0'
        maxFrac := frac.length
        multiplier := multiplierOf (multiplierOf 1 lead) tail }

/-! ## §C  Digits -/

/-- The digits of an integer part: no zero in front beyond `least` digits. -/
def intDigits (least : Nat) (int : List Char) : List Char :=
  let ds := int.dropWhile (· == '0')
  Number.zeros (least - ds.length) ++ ds

/-- The digits of a fraction: no zero at the end beyond `least` digits. -/
def fracDigits (least : Nat) (frac : List Char) : List Char :=
  frac.take least ++ ((frac.drop least).reverse.dropWhile (· == '0')).reverse

/-- Puts `separator` between groups of `size` digits, counted from the right. -/
def grouped (size : Nat) (separator : Char) : List Char → List Char
  | [] => []
  | d :: ds =>
    let rest := grouped size separator ds
    if size != 0 && !ds.isEmpty && ds.length % size == 0 then d :: separator :: rest else d :: rest

/-- A digit in the script of `zero`, if there is such a character. -/
def localize (zero d : Char) : Char :=
  let n := zero.toNat + Number.digitValue d
  if n.isValidChar then Char.ofNat n else d

/-- The number of a magnitude under a pattern. -/
def renderMagnitude (p : SubPattern) (s : DecimalSymbols) (x : Float) : List Char :=
  let (int, frac) := Number.withPlaces ((Number.magnitude x).fixed p.maxFrac) p.maxFrac
  let frac := fracDigits p.minFrac frac
  let int := intDigits p.minInt int
  let int := if int.isEmpty && frac.isEmpty then ['0'] else int
  let int := grouped p.grouping s.groupingSeparator (int.map (localize s.zeroDigit))
  if frac.isEmpty then int
  else int ++ s.decimalSeparator :: frac.map (localize s.zeroDigit)

end SubPattern

/-! ## §D  Formatting -/

/-- **formatNumber** writes a number by a pattern. Negative numbers, the negative zero included, have the
text of the second part around them, or else a minus sign in front. -/
def formatNumber (x : Float) (pattern : String) (s : DecimalSymbols) : Except Fault String :=
  if x.isNaN then .ok s.nan
  else do
    let (positive, negative?) := SubPattern.splitAt ';' pattern.toList
    let p ← SubPattern.parse s positive
    let (lead, tail) ←
      if Number.isNegative x then
        match negative? with
        | some negative => do
          let n ← SubPattern.parse s negative
          pure (n.lead, n.tail)
        | none => pure (s.minusSign :: p.lead, p.tail)
      else pure (p.lead, p.tail)
    let m := x * p.multiplier
    let body := if Number.isFinite m then p.renderMagnitude s m else s.infinity.toList
    pure (String.ofList (lead ++ body ++ tail))

end NodePath
