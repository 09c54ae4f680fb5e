/-
# NodePath.Expr.Input — reading the text of an expression

**Input** is the text that is still to be read and the number of bytes already read. The small readers
here look at the front and take from it; the grammar is built from them.

* §A  The input and its front.
* §B  Taking characters, words, blanks.
* §C  Names, digits and quoted texts.
-/
import NodePath.Error
import NodePath.Text.Numeric
import NodePath.Text.Blank

namespace NodePath

/-! ## §A  The front -/

/-- **Input** is what is left of a text behind its first `offset` bytes. -/
structure Input where
  rest : List Char
  offset : Nat
deriving Repr

namespace Input

/-- A whole text. -/
def ofString (s : String) : Input := ⟨s.toList, 0⟩

/-- The next character. -/
def peek? (i : Input) : Option Char := i.rest.head?

/-- Whether `word` is next. -/
def startsWith (i : Input) (word : List Char) : Bool := word.isPrefixOf i.rest

/-- Whether nothing is left. -/
def atEnd (i : Input) : Bool := i.rest.isEmpty

/-- An error at this place. -/
def error (i : Input) (fault : SyntaxFault) : ParseError := ⟨i.offset, fault⟩

/-! ## §B  Taking -/

/-- The number of bytes that characters take. -/
def bytes (cs : List Char) : Nat := cs.foldl (fun n c => n + c.utf8Size) 0

/-- The input behind its first `n` characters. -/
def drop (i : Input) (n : Nat) : Input := ⟨i.rest.drop n, i.offset + bytes (i.rest.take n)⟩

/-- The characters at the front for which `p` holds. -/
def front (i : Input) (p : Char → Bool) : List Char := i.rest.takeWhile p

/-- The input behind the blanks at its front. -/
def skipBlanks (i : Input) : Input := i.drop (i.front Text.isBlank).length

/-- The input behind `word`, if it is next. -/
def skip? (i : Input) (word : List Char) : Option Input :=
  if i.startsWith word then some (i.drop word.length) else none

/-! ## §C  Names, digits, quoted texts -/

end Input

/-- Whether a name may begin with `c`. -/
def isNameStart (c : Char) : Bool := Text.isAlphabetic c || c == '_'

/-- Whether a name may go on with `c`. -/
def isNameChar (c : Char) : Bool := Text.isAlphanumeric c || c == '_' || c == '-' || c == '.'

namespace Input

/-- The name at the front; empty if there is none. -/
def name (i : Input) : List Char :=
  match i.rest with
  | [] => []
  | c :: cs => if isNameStart c then c :: cs.takeWhile isNameChar else []

/-- Takes a name. -/
def takeName (i : Input) : Except ParseError (String × Input) :=
  let n := i.name
  if n.isEmpty then .error (i.error .nameExpected) else .ok (String.ofList n, i.drop n.length)

/-- The input behind the digits at its front. -/
def skipDigits (i : Input) : Input := i.drop (i.front Char.isDigit).length

/-- The input behind the digits at its front, an optional point, and the digits behind that. -/
def skipNumber (i : Input) : Input :=
  let j := i.skipDigits
  match j.skip? ['.'] with
  | some j => j.skipDigits
  | none => j

/-- The number at the front, and the input behind what was looked at. There must be a digit; where none
is found, the input nevertheless stands behind the lone point. -/
def takeNumber (i : Input) : Except ParseError String × Input :=
  let j := i.skipNumber
  let cs := i.rest.take (i.rest.length - j.rest.length)
  if cs.isEmpty || cs == ['.'] then (.error (j.error .numberExpected), j)
  else (.ok (String.ofList cs), j)

/-- Whether a quote is next. -/
def atQuote (i : Input) : Bool := i.peek? == some '\'' || i.peek? == some '"'

/-- Takes a text between two quotes of one kind. There are no escapes, so the text ends at the first
quote of that kind. -/
def takeQuoted (i : Input) : Except ParseError (String × Input) :=
  match i.rest with
  | [] => .error (i.error .quoteExpected)
  | q :: cs =>
    if q != '\'' && q != '"' then .error (i.error .quoteExpected)
    else
      let body := cs.takeWhile (· != q)
      if body.length == cs.length then .error (i.error .unterminated)
      else .ok (String.ofList body, i.drop (body.length + 2))

/-- Takes the character `c`. -/
def expect (i : Input) (c : Char) : Except ParseError Input :=
  match i.skip? [c] with
  | some i => .ok i
  | none => .error (i.error (.expected c))

/-- Takes the word `word` behind blanks, unless a name goes on behind it. The blanks are skipped in any
case. -/
def takeKeyword (i : Input) (word : String) : Bool × Input :=
  let i := i.skipBlanks
  match i.skip? word.toList with
  | some j => if j.peek?.any isNameChar then (false, i) else (true, j)
  | none => (false, i)

end Input

end NodePath
