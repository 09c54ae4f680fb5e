/-
# NodePath.Json.Reader — text to documents

A reader takes characters from the front of a list and answers what it read with the rest, or nothing
when the text is no document. Nothing may follow a document but the four blanks of the format.

* §A  Numbers. Integers of up to 64 bits stay integers. All else goes through a significand of 64 bits
  and a power of ten, each rounded on its own: digits that the significand cannot hold only count as
  zeros before the point and are dropped behind it.
* §B  Texts and their escapes.
* §C  Documents, nested at most `maxDepth` deep.
-/
import NodePath.Json.Basic
import NodePath.Number.Reading

namespace NodePath.Json

/-- **Reader** takes a value from the front of a text. -/
abbrev Reader (α : Type) := List Char → Option (α × List Char)

/-! ## §A  Numbers -/

/-- The greatest significand that is held exactly. -/
def maxSignificand : Nat := Nat.pow 2 64 - 1

/-- The greatest written exponent that is held exactly. -/
def maxExponent : Nat := Nat.pow 2 31 - 1

/-- Ten to the power `k`, for `k` up to 308. -/
def powerOfTen (k : Nat) : Float := Float.ofScientific 1 false k

/-- `x * 10 ^ exponent` for an exponent below zero, in steps of at most 308 places. `fuel` bounds the
steps: after three of them nothing but zero is left. -/
def scaleDown : Nat → Float → Nat → Float
  | 0, x, _ => x
  | fuel + 1, x, places =>
    if places ≤ 308 then x / powerOfTen places
    else if x == 0 then x
    else scaleDown fuel (x / powerOfTen 308) (places - 308)

/-- `significand * 10 ^ exponent`; nothing if that is beyond the doubles. -/
def scaled? (negative : Bool) (significand : Nat) (exponent : Int) : Option Float :=
  let x := Number.ofNat significand
  let m? : Option Float :=
    match exponent with
    | .ofNat e =>
      if e ≤ 308 then
        let y := x * powerOfTen e
        if Number.isFinite y then some y else none
      else if significand == 0 then some x
      else none
    | .negSucc e => some (scaleDown 8 x (e + 1))
  m?.map fun m => if negative then -m else m

/-- Digits of a significand as far as they fit, and the digits from the first that does not fit. -/
def takeSignificand (significand : Nat) : List Char → Nat × List Char
  | [] => (significand, [])
  | c :: cs =>
    let next := 10 * significand + Number.digitValue c
    if next ≤ maxSignificand then takeSignificand next cs else (significand, c :: cs)

/-- What stands behind the mark of an exponent. -/
def readExponent (negative : Bool) (significand : Nat) (exponent : Int) : Reader Float := fun cs =>
  let (down, cs) := Number.readSign cs
  let (ds, rest) := Number.spanDigits cs
  if ds.isEmpty then none
  else
    let e := Number.natOfDigits ds
    if e > maxExponent then
      if significand != 0 && !down then none else some (if negative then -0.0 else 0.0, rest)
    else
      (scaled? negative significand (if down then exponent - e else exponent + e)).map (·, rest)

/-- What may stand behind the digits of a number that is no integer: an exponent or nothing. -/
def readTail (negative : Bool) (significand : Nat) (exponent : Int) : Reader Float
  | 'e' :: cs => readExponent negative significand exponent cs
  | 'E' :: cs => readExponent negative significand exponent cs
  | cs => (scaled? negative significand exponent).map (·, cs)

/-- What stands behind a point: at least one digit. -/
def readFraction (negative : Bool) (significand : Nat) (exponent : Int) : Reader Float := fun cs =>
  let (ds, rest) := Number.spanDigits cs
  if ds.isEmpty then none
  else
    let (significand, dropped) := takeSignificand significand ds
    readTail negative significand (exponent - (ds.length - dropped.length : Nat)) rest

/-- An integer of 64 bits, with its sign. The negative zero and what is below `-2^63` are doubles. -/
def ofMagnitude (negative : Bool) (n : Nat) : Json :=
  if !negative then int n
  else if n == 0 || n > Nat.pow 2 63 then double (-(Number.ofNat n))
  else int (-(n : Int))

/-- A number after its sign. -/
def readMagnitude (negative : Bool) : Reader Json := fun cs =>
  let (ds, rest) := Number.spanDigits cs
  if ds.isEmpty || (ds.length > 1 && ds.head? == some '0') then none
  else
    let (significand, excess) := takeSignificand 0 ds
    match rest with
    | '.' :: rest => (readFraction negative significand excess.length rest).map fun r => (double r.1, r.2)
    | cs =>
      if excess.isEmpty && cs.head? != some 'e' && cs.head? != some 'E' then
        some (ofMagnitude negative significand, cs)
      else (readTail negative significand excess.length cs).map fun r => (double r.1, r.2)

/-- A number. -/
def readNumber : Reader Json
  | '-' :: cs => readMagnitude true cs
  | cs => readMagnitude false cs

/-! ## §B  Texts -/

/-- The value of a hexadecimal digit. -/
def hexValue? (c : Char) : Option Nat :=
  if c.isDigit then some (c.toNat - 48)
  else if 'a' ≤ c && c ≤ 'f' then some (c.toNat - 87)
  else if 'A' ≤ c && c ≤ 'F' then some (c.toNat - 55)
  else none

/-- Four hexadecimal digits. -/
def readHex : Reader Nat
  | a :: b :: c :: d :: cs => do
    let a ← hexValue? a
    let b ← hexValue? b
    let c ← hexValue? c
    let d ← hexValue? d
    some (a * 4096 + b * 256 + c * 16 + d, cs)
  | _ => none

/-- A character given by number, behind the `u` of its escape: one unit, or the two units of a
character beyond them. A unit that is half of a pair without its other half is refused. -/
def readUnits : Reader Char := fun cs => do
  let (n, cs) ← readHex cs
  if 0xDC00 ≤ n && n ≤ 0xDFFF then none
  else if 0xD800 ≤ n && n ≤ 0xDBFF then
    match cs with
    | '\\' :: 'u' :: cs =>
      let (m, cs) ← readHex cs
      if 0xDC00 ≤ m && m ≤ 0xDFFF then
        some (Char.ofNat (0x10000 + (n - 0xD800) * 0x400 + (m - 0xDC00)), cs)
      else none
    | _ => none
  else some (Char.ofNat n, cs)

/-- One escape, behind its backslash. -/
def readEscape : Reader Char
  | '"' :: cs => some ('"', cs)
  | '\\' :: cs => some ('\\', cs)
  | '/' :: cs => some ('/', cs)
  | 'b' :: cs => some ('\x08', cs)
  | 'f' :: cs => some ('\x0c', cs)
  | 'n' :: cs => some ('\n', cs)
  | 'r' :: cs => some ('\r', cs)
  | 't' :: cs => some ('\t', cs)
  | 'u' :: cs => readUnits cs
  | _ => none

/-- The characters of a text up to its closing quote; `taken` holds, last first, those already read.
`fuel` bounds the characters, so the length of the input is enough. -/
def readCharsFrom : Nat → List Char → Reader (List Char)
  | 0, _, _ => none
  | fuel + 1, taken, cs =>
    match cs with
    | [] => none
    | '"' :: cs => some (taken.reverse, cs)
    | '\\' :: cs => do
      let (c, cs) ← readEscape cs
      readCharsFrom fuel (c :: taken) cs
    | c :: cs => if c.toNat < 0x20 then none else readCharsFrom fuel (c :: taken) cs

/-- A text, behind its opening quote. -/
def readText : Reader String := fun cs =>
  (readCharsFrom (cs.length + 1) [] cs).map fun r => (String.ofList r.1, r.2)

/-! ## §C  Documents -/

/-- The blanks between the parts of a document. -/
def isGap (c : Char) : Bool := c == ' ' || c == '\t' || c == '\n' || c == '\r'

/-- Skips the blanks at the front. -/
def skipGap (cs : List Char) : List Char := cs.dropWhile isGap

/-- Skips `word` at the front, if it is there. -/
def skip? : List Char → List Char → Option (List Char)
  | [], cs => some cs
  | w :: ws, c :: cs => if w == c then skip? ws cs else none
  | _ :: _, [] => none

/-- Items read by `item`, divided by commas, up to `close`; `taken` holds, last first, those already
read, and `fuel` bounds the items. -/
def readItemsFrom {α : Type} (close : Char) (item : Reader α) : Nat → List α → Reader (List α)
  | 0, _, _ => none
  | fuel + 1, taken, cs => do
    let (x, cs) ← item (skipGap cs)
    match skipGap cs with
    | [] => none
    | c :: cs =>
      if c == close then some ((x :: taken).reverse, cs)
      else if c == ',' then readItemsFrom close item fuel (x :: taken) cs
      else none

/-- The items of an array or an object, behind its opening bracket. -/
def readItems {α : Type} (close : Char) (item : Reader α) : Reader (List α) := fun cs =>
  match skipGap cs with
  | [] => none
  | c :: rest => if c == close then some ([], rest) else readItemsFrom close item (cs.length + 1) [] cs

/-- One member of an object. -/
def readMember (value : Reader Json) : Reader (String × Json)
  | '"' :: cs => do
    let (key, cs) ← readText cs
    match skipGap cs with
    | ':' :: cs =>
      let (v, cs) ← value (skipGap cs)
      some ((key, v), cs)
    | _ => none
  | _ => none

/-- How deep arrays and objects may be nested. -/
def maxDepth : Nat := 127

/-- A document with at most `depth` levels of arrays and objects; `build` makes an object of its
members as they were written. -/
def readValue (build : Members → Members) : Nat → Reader Json
  | depth, cs =>
    match cs with
    | 'n' :: cs => (skip? ['u', 'l', 'l'] cs).map (null, ·)
    | 't' :: cs => (skip? ['r', 'u', 'e'] cs).map (bool true, ·)
    | 'f' :: cs => (skip? ['a', 'l', 's', 'e'] cs).map (bool false, ·)
    | '"' :: cs => (readText cs).map fun r => (text r.1, r.2)
    | '[' :: cs =>
      match depth with
      | 0 => none
      | depth + 1 => (readItems ']' (readValue build depth) cs).map fun r => (array r.1, r.2)
    | '\x7b' :: cs =>
      match depth with
      | 0 => none
      | depth + 1 =>
        (readItems '\x7d' (readMember (readValue build depth)) cs).map fun r =>
          (object (build r.1), r.2)
    | cs => readNumber cs

/-- The document that a whole text is, its objects built by `build`. -/
def readWith? (build : Members → Members) (s : String) : Option Json := do
  let (j, rest) ← readValue build maxDepth (skipGap s.toList)
  if (skipGap rest).isEmpty then some j else none

/-- **read?** is the document that a text is, if it is one. -/
def read? (s : String) : Option Json := readWith? Members.ofWritten s

/-- The document with every member as it was written, repeated names included. -/
def readWritten? (s : String) : Option Json := readWith? id s

end NodePath.Json
