/-
# NodePath.Expr.Parser — text to expression trees

The grammar is a ladder of levels, from `or` down to paths and primary expressions. Each level is a
reader over the level below it. What stands between brackets or parentheses is a whole expression again;
that reader, `inner`, is an argument of every level, so each level is an ordinary definition, and the
recursion of the grammar is tied once, in **expression**, on the number of characters.

* §A  Readers: the input is passed along, and an error ends the reading.
* §B  Sequences of operands.
* §C  Steps and location paths.
* §D  Primary expressions.
* §E  The levels of operators.
* §F  `Expr.parse`.
-/
import NodePath.Expr.Basic
import NodePath.Expr.Input

namespace NodePath

/-! ## §A  Readers -/

/-- **Parser** takes a value from the front of the input, or fails. -/
abbrev Parser := StateT Input (Except ParseError)

namespace Parser

/-- Fails at the present place. -/
def fail {α : Type} (fault : SyntaxFault) : Parser α := do throw ((← get).error fault)

/-- Skips blanks. -/
def blanks : Parser Unit := modify Input.skipBlanks

/-- Takes `word` if it is next. -/
def accept (word : List Char) : Parser Bool := do
  match (← get).skip? word with
  | some i => set i; pure true
  | none => pure false

/-- Takes the character `c` behind blanks if it is next. -/
def mark (c : Char) : Parser Bool := do
  blanks
  accept [c]

/-- Takes the character `c`. -/
def expect (c : Char) : Parser Unit := do set (← (← get).expect c)

/-- Takes a keyword if it is next. -/
def keyword (word : String) : Parser Bool := do
  let (found, i) := (← get).takeKeyword word
  set i
  pure found

/-- Takes a name. -/
def name : Parser String := do
  let (n, i) ← (← get).takeName
  set i
  pure n

/-- Takes a text between quotes. -/
def quoted : Parser String := do
  let (s, i) ← (← get).takeQuoted
  set i
  pure s

/-- Takes a number. -/
def number : Parser String := do
  let (r, i) := (← get).takeNumber
  set i
  r

/-- Runs a reader with the number of characters that are left, as a bound on how often it repeats. -/
def bounded {α : Type} (p : Nat → Parser α) : Parser α := do p ((← get).rest.length + 1)

/-! ## §B  Sequences -/

/-- Items, each behind something that `more` takes; `taken` holds, last first, those already read. -/
def itemsFrom {α : Type} (more : Parser Bool) (item : Parser α) : Nat → List α → Parser (List α)
  | 0, taken => pure taken.reverse
  | fuel + 1, taken => do
    if ← more then itemsFrom more item fuel ((← item) :: taken) else pure taken.reverse

/-- Operands divided by something that `more` takes: a single one is itself, several are the operands
of one operation. -/
def operands (op : Operator) (more : Parser Bool) (operand : Parser Expr) : Parser Expr := do
  let first ← operand
  match ← bounded fun n => itemsFrom more operand n [] with
  | [] => pure first
  | others => pure (.operation op (first :: others))

/-- Further operands of operators that group to the left; `operator` takes an operator if one is next. -/
def leftFrom (operator : Parser (Option Operator)) (operand : Parser Expr) : Nat → Expr → Parser Expr
  | 0, left => pure left
  | fuel + 1, left => do
    match ← operator with
    | none => pure left
    | some op => leftFrom operator operand fuel (.binary op left (← operand))

/-- Operands of operators that group to the left. -/
def left (operator : Parser (Option Operator)) (operand : Parser Expr) : Parser Expr := do
  let first ← operand
  bounded fun n => leftFrom operator operand n first

/-- The first operator of a list whose symbol is next. -/
def symbolOf : List Operator → Parser (Option Operator)
  | [] => pure none
  | op :: ops => do if ← accept op.symbol.toList then pure (some op) else symbolOf ops

/-- Takes the first operator of a list whose symbol is next behind blanks. -/
def symbolic (ops : List Operator) : Parser (Option Operator) := do
  blanks
  symbolOf ops

/-! ## §C  Steps and location paths -/

/-- A predicate behind its opening bracket, and the closing one. -/
def predicate (inner : Parser Expr) : Parser Expr := do
  let e ← inner
  blanks
  expect ']'
  pure e

/-- Predicates in square brackets. -/
def predicates (inner : Parser Expr) : Parser (List Expr) :=
  bounded fun n => itemsFrom (mark '[') (predicate inner) n []

/-- A name with an optional qualifier. -/
def qualifiedName : Parser (Option String × String) := do
  let first ← name
  let i ← get
  if i.peek? == some ':' && !i.startsWith [':', ':'] then
    set (i.drop 1)
    pure (some first, ← name)
  else pure (none, first)

/-- The axis in front of a node test: spelled out, abbreviated, or the child axis. -/
def axis : Parser Axis := do
  if ← accept ['@'] then return .attributes
  let i ← get
  let n := i.name
  let behind := (i.drop n.length).skipBlanks
  if !n.isEmpty && behind.startsWith [':', ':'] then
    match Axis.ofName? (String.ofList n) with
    | some a => set (behind.drop 2); pure a
    | none => fail (.unknownAxis (String.ofList n))
  else pure .child

/-- What stands between the parentheses of a node type, and the closing one. -/
def nodeTypeTail (type : NodeType) : Parser NodeTest := do
  blanks
  if type == .processingInstruction && (← get).atQuote then
    let target ← quoted
    blanks
    expect ')'
    pure (.instruction target)
  else
    expect ')'
    pure (.type type)

/-- A node test. -/
def nodeTest : Parser NodeTest := do
  if ← accept ['*'] then return .name (.plain "*")
  let start ← get
  let first ← name
  let i ← get
  if i.peek? == some ':' && !i.startsWith [':', ':'] then
    set (i.drop 1)
    if ← accept ['*'] then return .name (.make (some first) "*")
    return .name (.make (some first) (← name))
  let behind := i.skipBlanks
  if behind.peek? == some '(' then
    match NodeType.ofName? first with
    | none => set start; fail (.notANodeType first)
    | some type => set (behind.drop 1); nodeTypeTail type
  else pure (.name (.plain first))

/-- The step that selects any node along an axis. -/
def anyNode (axis : Axis) : Step := ⟨axis, .type .node, []⟩

/-- One step. -/
def step (inner : Parser Expr) : Parser Step := do
  blanks
  if ← accept ['.', '.'] then return anyNode .parent
  if ← accept ['.'] then return anyNode .self
  let axis ← axis
  blanks
  let test ← nodeTest
  pure ⟨axis, test, ← predicates inner⟩

/-- Further steps, each behind one or two slashes; `taken` holds, last first, those already read. -/
def stepsFrom (inner : Parser Expr) : Nat → List Step → Parser (List Step)
  | 0, taken => pure taken.reverse
  | fuel + 1, taken => do
    blanks
    if ← accept ['/', '/'] then stepsFrom inner fuel ((← step inner) :: anyNode .descendantOrSelf :: taken)
    else if ← accept ['/'] then stepsFrom inner fuel ((← step inner) :: taken)
    else pure taken.reverse

/-- The steps behind those of `taken`, which holds them last first. -/
def steps (inner : Parser Expr) (taken : List Step) : Parser (List Step) :=
  bounded fun n => stepsFrom inner n taken

/-- Whether a step may begin with `c`. -/
def startsStep (c : Char) : Bool := c == '.' || c == '@' || c == '*' || isNameStart c

/-- A location path. -/
def locationPath (inner : Parser Expr) : Parser Expr := do
  if ← accept ['/', '/'] then
    let first ← step inner
    return .path true (← steps inner [first, anyNode .descendantOrSelf])
  if ← accept ['/'] then
    blanks
    if !((← get).peek?.any startsStep) then return .path true []
    return .path true (← steps inner [← step inner])
  return .path false (← steps inner [← step inner])

/-- Whether a location path begins with the name at the front of `i`: it does, unless the name is
followed by an opening parenthesis and is no node type. -/
def nameStartsPath (i : Input) : Bool :=
  let n := i.name
  let behind := (i.drop n.length).skipBlanks
  if behind.startsWith [':', ':'] then true
  else if behind.peek? == some ':' then
    let localPart := behind.drop 1
    if localPart.peek? == some '*' then true
    else (localPart.drop localPart.name.length).skipBlanks.peek? != some '('
  else if behind.peek? == some '(' then (NodeType.ofName? (String.ofList n)).isSome
  else true

/-- Whether a location path begins at the front of `i`. -/
def startsPath (i : Input) : Bool :=
  match i.rest with
  | [] => false
  | c :: cs =>
    if c == '/' || c == '@' || c == '*' then true
    else if c == '.' then !cs.head?.any Char.isDigit
    else if isNameStart c then nameStartsPath i
    else false

/-! ## §D  Primary expressions -/

/-- The arguments of a call, behind its opening parenthesis. -/
def arguments (inner : Parser Expr) : Parser (List Expr) := do
  blanks
  if ← accept [')'] then return []
  let first ← inner
  let others ← bounded fun n => itemsFrom (mark ',') inner n []
  expect ')'
  pure (first :: others)

/-- A call of a function: of a core function when the name has no qualifier and is one of theirs. -/
def functionCall (inner : Parser Expr) : Parser Expr := do
  let (qualifier, localName) ← qualifiedName
  blanks
  expect '('
  let args ← arguments inner
  match qualifier, CoreFunction.ofName? localName with
  | none, some f => pure (.core f args)
  | _, _ => pure (.call (.make qualifier localName) args)

/-- A variable, an expression in parentheses, a text, a number or a call. -/
def primary (inner : Parser Expr) : Parser Expr := do
  blanks
  let i ← get
  match i.peek? with
  | none => fail .unexpectedEnd
  | some c =>
    if c == '$' then
      set (i.drop 1)
      let (qualifier, localName) ← qualifiedName
      pure (.var (.make qualifier localName))
    else if c == '(' then
      set (i.drop 1)
      let e ← inner
      blanks
      expect ')'
      pure e
    else if c == '\'' || c == '"' then pure (.text (← quoted))
    else if c.isDigit || c == '.' then pure (.ofNumeral (← number))
    else if isNameStart c then functionCall inner
    else fail (.unexpected c)

/-- A location path, or a primary expression with predicates and steps behind it. -/
def path (inner : Parser Expr) : Parser Expr := do
  blanks
  if startsPath (← get) then locationPath inner
  else
    let head ← primary inner
    let predicates ← predicates inner
    blanks
    if (← get).peek? == some '/' then pure (.filterOf head predicates (← steps inner []))
    else pure (.filterOf head predicates [])

/-! ## §E  Operators -/

/-- Paths with bars between them. -/
def union (inner : Parser Expr) : Parser Expr :=
  operands .union (mark '|') (path inner)

/-- A union behind any number of minus signs. -/
def unaryFrom (inner : Parser Expr) : Nat → Parser Expr
  | 0 => fail .tooDeep
  | fuel + 1 => do
    blanks
    if ← accept ['-'] then pure (.operation .negate [← unaryFrom inner fuel]) else union inner

/-- A union behind any number of minus signs. -/
def unary (inner : Parser Expr) : Parser Expr := bounded (unaryFrom inner)

/-- Takes an operator of multiplication, division or remainder. -/
def multiplicativeOperator : Parser (Option Operator) := do
  blanks
  if ← accept ['*'] then pure (some .multiply)
  else if ← keyword "div" then pure (some .divide)
  else if ← keyword "mod" then pure (some .modulo)
  else pure none

/-- Multiplication, division and remainder. -/
def multiplicative (inner : Parser Expr) : Parser Expr := left multiplicativeOperator (unary inner)

/-- Addition and subtraction. -/
def additive (inner : Parser Expr) : Parser Expr :=
  left (symbolic [.sum, .minus]) (multiplicative inner)

/-- The four comparisons by order; of two symbols with one beginning the longer is taken. -/
def relational (inner : Parser Expr) : Parser Expr :=
  left (symbolic [.lessOrEqual, .greaterOrEqual, .less, .greater]) (additive inner)

/-- The two comparisons by equality. -/
def equality (inner : Parser Expr) : Parser Expr :=
  left (symbolic [.notEqual, .equal]) (relational inner)

/-- Conjunctions. -/
def conjunction (inner : Parser Expr) : Parser Expr := operands .and (keyword "and") (equality inner)

/-- Disjunctions, the weakest level. -/
def disjunction (inner : Parser Expr) : Parser Expr := operands .or (keyword "or") (conjunction inner)

/-! ## §F  Whole texts -/

/-- **expression** is an expression with at most `depth` expressions in one another. Each of them takes
at least one character, so the length of the text is depth enough. -/
def expression : Nat → Parser Expr
  | 0 => fail .tooDeep
  | depth + 1 => disjunction (expression depth)

/-- An expression and nothing behind it but blanks. -/
def wholeText : Parser Expr := do
  blanks
  let e ← bounded expression
  blanks
  if (← get).atEnd then pure e else fail .trailing

end Parser

/-- **Expr.parse** is the tree of an expression text. -/
def Expr.parse (s : String) : Except ParseError Expr := Parser.wholeText.run' (Input.ofString s)

end NodePath
