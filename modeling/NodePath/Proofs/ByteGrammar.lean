/-
# NodePath.Proofs.ByteGrammar — the whole grammar, read by byte positions

The grammar over `ByteReader`: every move is a number of bytes, every look ahead has a cursor of its own, every loop
is checked to move on between its turns, and every rule that can occur inside of itself is entered through `enter`.
From any place in a text it reads what the grammar over `Input` reads, to the same tree or the same error. As that
one has no checks to fail, none fails here: no slice is out of range, no loop stands still, and no rule begins twice
at one place.

That no rule does is told by `Ready`: whatever is under way at the place where a rule is entered has a smaller rank
than the rule. Ranks go up from a disjunction to the call of a function, and each rule enters only rules of a greater
rank, unless something has been taken since it began.

* §A  The grammar.
* §B  What may be entered.
* §C  Loops.
* §D  Steps and paths.
* §E  Primary expressions.
* §F  Operators.
* §G  Whole texts.
-/
import NodePath.Proofs.ByteReader

namespace NodePath

/-- **rank** is the place of a rule among the rules. Of two rules entered at one place, the inner one has the greater
rank. -/
def Rule.rank (r : Rule) : Nat := r.ctorIdx

namespace ByteReader

variable {α : Type}

/-! ## §A  The grammar -/

/-- A turn over items, each behind something that `more` takes. -/
def itemsTurn (more : ByteReader Bool) (item : ByteReader α) (taken : List α) :
    ByteReader (Turn (List α) (List α)) := do
  if ← more then pure (.again ((← item) :: taken)) else pure (.done taken.reverse)

/-- Operands divided by something that `more` takes. -/
def operands (op : Operator) (more : ByteReader Bool) (operand : ByteReader Expr) : ByteReader Expr := do
  let first ← operand
  match ← loop (itemsTurn more operand) [] with
  | [] => pure first
  | others => pure (.operation op (first :: others))

/-- A turn over operands of operators that group to the left. -/
def leftTurn (operator : ByteReader (Option Operator)) (operand : ByteReader Expr) (left : Expr) :
    ByteReader (Turn Expr Expr) := do
  match ← operator with
  | none => pure (.done left)
  | some op => pure (.again (.binary op left (← operand)))

/-- Operands of operators that group to the left. -/
def left (operator : ByteReader (Option Operator)) (operand : ByteReader Expr) : ByteReader Expr := do
  let first ← operand
  loop (leftTurn operator operand) first

/-- Takes a symbol if it is next: a character, or a word of several. -/
def consumeSymbol : List Char → ByteReader Bool
  | [c] => consumeChar c
  | word => consumeStr word

/-- The first operator of a list whose symbol is next. -/
def symbolOf : List Operator → ByteReader (Option Operator)
  | [] => pure none
  | op :: ops => do if ← consumeSymbol op.symbol.toList then pure (some op) else symbolOf ops

/-- Takes the first operator of a list whose symbol is next behind blanks. -/
def symbolic (ops : List Operator) : ByteReader (Option Operator) := do
  skipBlanks
  symbolOf ops

/-- A predicate behind its opening bracket, and the closing one. -/
def predicate (inner : ByteReader Expr) : ByteReader Expr := do
  let e ← inner
  skipBlanks
  expect ']'
  pure e

/-- Predicates in square brackets. -/
def predicates (inner : ByteReader Expr) : ByteReader (List Expr) :=
  enter .predicates (loop (itemsTurn (mark '[') (predicate inner)) [])

/-- A name with an optional qualifier. -/
def qname : ByteReader (Option String × String) := do
  let first ← identifier
  if (← peekChar) == some ':' && !(← peekStr [':', ':']) then
    advance 1
    pure (some first, ← identifier)
  else pure (none, first)

/-- The axis in front of a node test. Whether it is spelled out is told by a look ahead. -/
def axis : ByteReader Axis := do
  if ← consumeChar '@' then pure .attributes
  else
    let ((name, colons), behind) ← ahead do
      let name ← ncName
      skipBlanks
      pure (name, ← peekStr [':', ':'])
    if !name.isEmpty && colons then
      match Axis.ofName? (String.ofList name) with
      | some a =>
        moveTo (behind + 2)
        pure a
      | none => fail (.unknownAxis (String.ofList name))
    else pure .child

/-- Whether a quote is next. -/
def peekQuote : ByteReader Bool := do
  let c ← peekChar
  pure (c == some '\'' || c == some '"')

/-- What stands between the parentheses of a node type, and the closing one. -/
def nodeTypeTail (type : NodeType) : ByteReader NodeTest := do
  skipBlanks
  if type == .processingInstruction && (← peekQuote) then
    let target ← quotedString
    skipBlanks
    expect ')'
    pure (.instruction target)
  else
    expect ')'
    pure (.type type)

/-- A node test. Whether a parenthesis follows is told by a look ahead. -/
def nodeTest : ByteReader NodeTest := do
  if ← consumeChar '*' then pure (.name (.plain "*"))
  else
    let start ← get
    let first ← identifier
    if (← peekChar) == some ':' && !(← peekStr [':', ':']) then
      advance 1
      if ← consumeChar '*' then pure (.name (.make (some first) "*"))
      else pure (.name (.make (some first) (← identifier)))
    else
      let (next, behind) ← ahead do
        skipBlanks
        peekChar
      if next == some '(' then
        match NodeType.ofName? first with
        | none =>
          moveTo start
          fail (.notANodeType first)
        | some type =>
          moveTo (behind + 1)
          nodeTypeTail type
      else pure (.name (.plain first))

/-- One step. -/
def step (inner : ByteReader Expr) : ByteReader Step := enter .step do
  skipBlanks
  if ← consumeStr ['.', '.'] then pure (Parser.anyNode .parent)
  else if ← consumeChar '.' then pure (Parser.anyNode .self)
  else
    let axis ← axis
    skipBlanks
    let test ← nodeTest
    pure ⟨axis, test, ← predicates inner⟩

/-- A turn over steps, each behind one or two slashes. -/
def stepsTurn (inner : ByteReader Expr) (taken : List Step) : ByteReader (Turn (List Step) (List Step)) := do
  skipBlanks
  if ← consumeStr ['/', '/'] then pure (.again ((← step inner) :: Parser.anyNode .descendantOrSelf :: taken))
  else if ← consumeChar '/' then pure (.again ((← step inner) :: taken))
  else pure (.done taken.reverse)

/-- The steps behind those of `taken`, which holds them last first. -/
def stepTail (inner : ByteReader Expr) (taken : List Step) : ByteReader (List Step) :=
  enter .stepTail (loop (stepsTurn inner) taken)

/-- A location path. -/
def locationPath (inner : ByteReader Expr) : ByteReader Expr := enter .locationPath do
  if (← peekChar) == some '/' then
    if ← consumeStr ['/', '/'] then
      let first ← step inner
      pure (.path true (← stepTail inner [first, Parser.anyNode .descendantOrSelf]))
    else
      advance 1
      skipBlanks
      if !((← peekChar).any Parser.startsStep) then pure (.path true [])
      else pure (.path true (← stepTail inner [← step inner]))
  else pure (.path false (← stepTail inner [← step inner]))

/-- Whether a location path begins with the name at the cursor. The cursor is moved on. -/
def probeName : ByteReader Bool := do
  let name ← ncName
  skipBlanks
  if ← peekStr [':', ':'] then pure true
  else if (← peekChar) == some ':' then
    advance 1
    if (← peekChar) == some '*' then pure true
    else
      let _ ← ncName
      skipBlanks
      pure ((← peekChar) != some '(')
  else if (← peekChar) == some '(' then pure (NodeType.ofName? (String.ofList name)).isSome
  else pure true

/-- Whether a location path begins with the name at the cursor, by a look ahead. -/
def nameStartsPath : ByteReader Bool := do pure (← ahead probeName).1

/-- Whether a location path begins at the cursor. -/
def startsPath : ByteReader Bool := do
  match ← peekChar with
  | none => pure false
  | some c =>
    if c == '/' || c == '@' || c == '*' then pure true
    else if c == '.' then pure !((← peekNth 1).any Char.isDigit)
    else if isNameStart c then nameStartsPath
    else pure false

/-- A turn over the arguments of a call, up to the comma or the parenthesis behind an argument. -/
def argumentsTurn (inner : ByteReader Expr) (taken : List Expr) : ByteReader (Turn (List Expr) (List Expr)) := do
  let e ← inner
  if ← mark ',' then pure (.again (e :: taken))
  else
    expect ')'
    pure (.done (e :: taken).reverse)

/-- The arguments of a call, behind its opening parenthesis. -/
def arguments (inner : ByteReader Expr) : ByteReader (List Expr) := do
  skipBlanks
  if ← consumeChar ')' then pure [] else loop (argumentsTurn inner) []

/-- A call of a function. -/
def functionCall (inner : ByteReader Expr) : ByteReader Expr := enter .functionCall do
  let (qualifier, localName) ← qname
  skipBlanks
  expect '('
  let args ← arguments inner
  match qualifier, CoreFunction.ofName? localName with
  | none, some f => pure (.core f args)
  | _, _ => pure (.call (.make qualifier localName) args)

/-- A variable, an expression in parentheses, a text, a number or a call. -/
def primary (inner : ByteReader Expr) : ByteReader Expr := enter .primary do
  skipBlanks
  match ← peekChar with
  | none => fail .unexpectedEnd
  | some c =>
    if c == '$' then
      advance 1
      let (qualifier, localName) ← qname
      pure (.var (.make qualifier localName))
    else if c == '(' then
      advance 1
      let e ← inner
      skipBlanks
      expect ')'
      pure e
    else if c == '\'' || c == '"' then pure (.text (← quotedString))
    else if c.isDigit || c == '.' then pure (.ofNumeral (← numberLiteral))
    else if isNameStart c then functionCall inner
    else fail (.unexpected c)

/-- A location path, or a primary expression with predicates and steps behind it. -/
def path (inner : ByteReader Expr) : ByteReader Expr := enter .path do
  skipBlanks
  if ← startsPath then locationPath inner
  else
    let head ← primary inner
    let predicates ← predicates inner
    skipBlanks
    if (← peekChar) == some '/' then pure (.filterOf head predicates (← stepTail inner []))
    else pure (.filterOf head predicates [])

/-- Paths with bars between them. -/
def union (inner : ByteReader Expr) : ByteReader Expr := enter .union (operands .union (mark '|') (path inner))

/-- A union behind any number of minus signs. -/
def unaryFrom (inner : ByteReader Expr) : Nat → ByteReader Expr
  | 0 => throw .stuck
  | n + 1 => enter .unary do
    skipBlanks
    if ← consumeChar '-' then pure (.operation .negate [← unaryFrom inner n]) else union inner

/-- A union behind any number of minus signs. -/
def unary (inner : ByteReader Expr) : ByteReader Expr := do unaryFrom inner ((← read).text.utf8ByteSize + 1)

/-- Takes an operator of multiplication, division or remainder. -/
def multiplicativeOperator : ByteReader (Option Operator) := do
  skipBlanks
  if ← consumeChar '*' then pure (some .multiply)
  else if ← keyword "div" then pure (some .divide)
  else if ← keyword "mod" then pure (some .modulo)
  else pure none

/-- Multiplication, division and remainder. -/
def multiplicative (inner : ByteReader Expr) : ByteReader Expr :=
  enter .multiplicative (left multiplicativeOperator (unary inner))

/-- Addition and subtraction. -/
def additive (inner : ByteReader Expr) : ByteReader Expr :=
  enter .additive (left (symbolic [.sum, .minus]) (multiplicative inner))

/-- The four comparisons by order. -/
def relational (inner : ByteReader Expr) : ByteReader Expr :=
  enter .relational (left (symbolic [.lessOrEqual, .greaterOrEqual, .less, .greater]) (additive inner))

/-- The two comparisons by equality. -/
def equality (inner : ByteReader Expr) : ByteReader Expr :=
  enter .equality (left (symbolic [.notEqual, .equal]) (relational inner))

/-- Conjunctions. -/
def conjunction (inner : ByteReader Expr) : ByteReader Expr :=
  enter .conjunction (operands .and (keyword "and") (equality inner))

/-- Disjunctions, the weakest level. -/
def disjunction (inner : ByteReader Expr) : ByteReader Expr :=
  enter .disjunction (operands .or (keyword "or") (conjunction inner))

/-- An expression with at most so many expressions in one another. -/
def expression : Nat → ByteReader Expr
  | 0 => throw .stuck
  | depth + 1 => disjunction (expression depth)

/-- An expression and nothing behind it but blanks. -/
def wholeText : ByteReader Expr := do
  skipBlanks
  let e ← expression ((← read).text.utf8ByteSize + 1)
  skipBlanks
  if (← read).text.utf8ByteSize ≤ (← get) then pure e else fail .trailing

/-- The tree of an expression text, read with every slice, loop and rule checked. -/
def parse (s : String) : Except Stop Expr := (·.1) <$> wholeText.runAt ⟨s, []⟩ 0

/-! ## §B  What may be entered -/

/-- **Ready** says that a rule of rank `n` or greater may be entered where `i` stands: what is under way there has
begun further to the front, or has a smaller rank. There are at most `d` characters left. -/
structure Ready (site : Site) (d n : Nat) (i : Input) : Prop where
  isIn : i.IsIn site.text
  length_le : i.rest.length ≤ d
  fits : ∀ call ∈ site.calls, call.2 < i.offset ∨ call.2 = i.offset ∧ call.1.rank < n

namespace Ready

variable {site : Site} {d m n : Nat} {i j : Input} {k : α → Nat} {p : ByteReader α} {q : Parser α}

/-- Further on, or at the same place. -/
theorem later (h : Ready site d n i) (hj : j.IsIn site.text) (hlength : j.rest.length ≤ i.rest.length) (hn : n ≤ m) :
    Ready site d m j := by
  refine ⟨hj, Nat.le_trans hlength h.length_le, fun call hcall => ?_⟩
  have hoffset := h.isIn.offset_le hj hlength
  have := h.fits call hcall
  omega

/-- Behind at least one character, any rule may be entered. -/
theorem beyond (h : Ready site d n i) (hj : j.IsIn site.text) (hlength : j.rest.length < i.rest.length) (m : Nat) :
    Ready site d m j := by
  refine ⟨hj, Nat.le_trans (Nat.le_of_lt hlength) h.length_le, fun call hcall => ?_⟩
  have hoffset := h.isIn.offset_lt hj hlength
  have := h.fits call hcall
  omega

/-- A rule may be entered if it is ready, and behind that the rules of greater rank are. -/
theorem agrees_enter {r : Rule} (h : Ready site d r.rank i)
    (hp : ∀ site', Ready site' d (r.rank + 1) i → Agrees site' k p q i) : Agrees site k (enter r p) q i := by
  have hentered : Ready { site with calls := (r, i.offset) :: site.calls } d (r.rank + 1) i := by
    refine ⟨h.isIn, h.length_le, List.forall_mem_cons.mpr ⟨.inr ⟨rfl, Nat.lt_succ_self _⟩, fun call hcall => ?_⟩⟩
    have := h.fits call hcall
    omega
  have hchecked : (site.calls.all fun call => call.1 != r || decide (call.2 < i.offset)) = true := by
    refine List.all_eq_true.mpr fun call hcall => ?_
    rw [Bool.or_eq_true, bne_iff_ne, decide_eq_true_eq]
    rcases h.fits call hcall with hbefore | ⟨-, hrank⟩
    · exact .inr hbefore
    · exact .inl fun hr => Nat.ne_of_lt hrank (congrArg Rule.rank hr)
  have hagrees := hp _ hentered
  refine .look (Runs.get i) (.look (Runs.read i) ?_)
  rw [if_pos hchecked]
  exact ⟨hagrees.ok, hagrees.error⟩

end Ready

/-- **AgreesBelow** says that two readers of expressions agree where fewer than `d` characters are left. -/
def AgreesBelow (d : Nat) (inner : ByteReader Expr) (inner' : Parser Expr) : Prop :=
  ∀ site i, Ready site d 0 i → i.rest.length < d → Agrees site (fun _ => 0) inner inner' i

/-- An expression in another one begins behind at least one character. -/
theorem AgreesBelow.beyond {d n : Nat} {inner : ByteReader Expr} {inner' : Parser Expr} (h : AgreesBelow d inner inner')
    {site : Site} {i j : Input} (hi : Ready site d n i) (hj : j.IsIn site.text)
    (hlength : j.rest.length < i.rest.length) : Agrees site (fun _ => 0) inner inner' j :=
  h site j (hi.beyond hj hlength 0) (Nat.lt_of_lt_of_le hlength hi.length_le)

/-! ## §C  Loops -/

section

variable {site : Site} {i : Input}

theorem agrees_itemsFrom {more : ByteReader Bool} {more' : Parser Bool} {item : ByteReader α} {item' : Parser α}
    (hmore : ∀ j, j.IsIn site.text → Agrees site (fun found => if found then 1 else 0) more more' j)
    (hitem : ∀ j, j.IsIn site.text → j.rest.length < i.rest.length → Agrees site (fun _ => 0) item item' j)
    (hi : i.IsIn site.text) {n m : Nat} (hn : Input.bytes i.rest < n) (hm : i.rest.length < m) (taken : List α) :
    Agrees site (fun _ => 0) (loopFrom (itemsTurn more item) n taken) (Parser.itemsFrom more' item' m taken) i := by
  induction n generalizing i m taken with
  | zero => omega
  | succ n ih =>
    obtain ⟨m, rfl⟩ : ∃ l, m = l + 1 := ⟨m - 1, by omega⟩
    refine .look (Runs.get i) ?_
    rw [itemsTurn, bind_assoc]
    refine (hmore i hi).andThen fun found j hj hlength => ?_
    cases found with
    | false => exact .done (.pure hj rfl)
    | true =>
      simp only [if_true] at hlength ⊢
      rw [bind_assoc]
      refine (hitem j hj (by omega)).andThen fun a l hl hlength' => ?_
      have hbytes := hi.bytes_lt hl (by omega)
      exact .again hi hl (by omega) (ih (fun k hk hlt => hitem k hk (by omega)) hl (by omega) (by omega) _)

theorem agrees_items {more : ByteReader Bool} {more' : Parser Bool} {item : ByteReader α} {item' : Parser α}
    (hmore : ∀ j, j.IsIn site.text → Agrees site (fun found => if found then 1 else 0) more more' j)
    (hitem : ∀ j, j.IsIn site.text → j.rest.length < i.rest.length → Agrees site (fun _ => 0) item item' j)
    (hi : i.IsIn site.text) : Agrees site (fun _ => 0) (loop (itemsTurn more item) [])
      (Parser.bounded fun m => Parser.itemsFrom more' item' m []) i :=
  .loop hi fun _ hn => .bounded fun _ hm => agrees_itemsFrom hmore hitem hi hn hm []

theorem agrees_operands {op : Operator} {more : ByteReader Bool} {more' : Parser Bool} {operand : ByteReader Expr}
    {operand' : Parser Expr}
    (hmore : ∀ j, j.IsIn site.text → Agrees site (fun found => if found then 1 else 0) more more' j)
    (hoperand : ∀ j, j.IsIn site.text → j.rest.length ≤ i.rest.length → Agrees site (fun _ => 0) operand operand' j)
    (hi : i.IsIn site.text) :
    Agrees site (fun _ => 0) (operands op more operand) (Parser.operands op more' operand') i := by
  refine (hoperand i hi (Nat.le_refl _)).andThen fun first j hj hlength => ?_
  refine (agrees_items hmore (fun l hl hlt => hoperand l hl (by omega)) hj).andThen fun others l hl _ => ?_
  cases others with
  | nil => exact .pure hl rfl
  | cons e es => exact .pure hl rfl

theorem agrees_leftFrom {operator : ByteReader (Option Operator)} {operator' : Parser (Option Operator)}
    {operand : ByteReader Expr} {operand' : Parser Expr}
    (hoperator : ∀ j, j.IsIn site.text →
      Agrees site (fun found => if found.isSome then 1 else 0) operator operator' j)
    (hoperand : ∀ j, j.IsIn site.text → j.rest.length ≤ i.rest.length → Agrees site (fun _ => 0) operand operand' j)
    (hi : i.IsIn site.text) {n m : Nat} (hn : Input.bytes i.rest < n) (hm : i.rest.length < m) (e : Expr) :
    Agrees site (fun _ => 0) (loopFrom (leftTurn operator operand) n e) (Parser.leftFrom operator' operand' m e) i := by
  induction n generalizing i m e with
  | zero => omega
  | succ n ih =>
    obtain ⟨m, rfl⟩ : ∃ l, m = l + 1 := ⟨m - 1, by omega⟩
    refine .look (Runs.get i) ?_
    rw [leftTurn, bind_assoc]
    refine (hoperator i hi).andThen fun found j hj hlength => ?_
    cases found with
    | none => exact .done (.pure hj rfl)
    | some op =>
      simp only [Option.isSome_some, if_true] at hlength ⊢
      rw [bind_assoc]
      refine (hoperand j hj (by omega)).andThen fun e' l hl hlength' => ?_
      have hbytes := hi.bytes_lt hl (by omega)
      exact .again hi hl (by omega) (ih (fun k hk hle => hoperand k hk (by omega)) hl (by omega) (by omega) _)

theorem agrees_left {operator : ByteReader (Option Operator)} {operator' : Parser (Option Operator)}
    {operand : ByteReader Expr} {operand' : Parser Expr}
    (hoperator : ∀ j, j.IsIn site.text →
      Agrees site (fun found => if found.isSome then 1 else 0) operator operator' j)
    (hoperand : ∀ j, j.IsIn site.text → j.rest.length ≤ i.rest.length → Agrees site (fun _ => 0) operand operand' j)
    (hi : i.IsIn site.text) : Agrees site (fun _ => 0) (left operator operand) (Parser.left operator' operand') i :=
  (hoperand i hi (Nat.le_refl _)).andThen fun first _ hj hlength =>
    .loop hj fun _ hn => .bounded fun _ hm =>
      agrees_leftFrom hoperator (fun l hl hle => hoperand l hl (Nat.le_trans hle hlength)) hj hn hm first

theorem agrees_consumeSymbol (hi : i.IsIn site.text) (word : List Char) :
    Agrees site (fun found => if found then word.length else 0) (consumeSymbol word) (Parser.accept word) i := by
  unfold consumeSymbol
  split
  · exact agrees_consumeChar hi _
  · exact agrees_consumeStr hi word

/-- The first of several words is taken, or what stands for the others. -/
theorem agrees_choice {word : ByteReader Bool} {word' : Parser Bool} {op : Operator}
    {others : ByteReader (Option Operator)} {others' : Parser (Option Operator)} {n : Nat} (hn : 1 ≤ n)
    (hword : Agrees site (fun found => if found then n else 0) word word' i)
    (hothers : ∀ j, j.IsIn site.text → Agrees site (fun found => if found.isSome then 1 else 0) others others' j) :
    Agrees site (fun found => if found.isSome then 1 else 0) (do if ← word then pure (some op) else others)
      (do if ← word' then pure (some op) else others') i := by
  refine hword.bind fun found j hj _ => .ite (fun hfound => .pure hj ?_) fun _ => ?_
  · simp only [hfound, if_true, Option.isSome_some]
    omega
  · exact (hothers j hj).mono fun _ => Nat.sub_le _ _

theorem one_le_length_symbol (op : Operator) : 1 ≤ op.symbol.toList.length := by
  cases op <;> decide

theorem agrees_symbolOf (ops : List Operator) (hi : i.IsIn site.text) :
    Agrees site (fun found => if found.isSome then 1 else 0) (symbolOf ops) (Parser.symbolOf ops) i := by
  induction ops generalizing i with
  | nil => exact .pure hi rfl
  | cons op ops ih => exact agrees_choice (one_le_length_symbol op) (agrees_consumeSymbol hi _) fun j hj => ih hj

theorem agrees_symbolic (ops : List Operator) (hi : i.IsIn site.text) :
    Agrees site (fun found => if found.isSome then 1 else 0) (symbolic ops) (Parser.symbolic ops) i :=
  (agrees_skipBlanks hi).after fun _ _ hj _ => agrees_symbolOf ops hj

end

/-! ## §D  Steps and paths -/

section

variable {site : Site} {i j : Input} {d : Nat} {inner : ByteReader Expr} {inner' : Parser Expr}

/-- What has been read, in front of blanks and the character that closes it. -/
theorem agrees_closing (hi : i.IsIn site.text) (c : Char) (a : α) : Agrees site (fun _ => 0)
    (do skipBlanks; expect c; pure a) (do Parser.blanks; Parser.expect c; pure a) i :=
  (agrees_skipBlanks hi).andThen fun _ _ hj _ => (agrees_expect hj c).andThen fun _ _ hend _ => .pure hend rfl

theorem agrees_predicate (h : AgreesBelow d inner inner') {n : Nat} (hi : Ready site d n i) (hj : j.IsIn site.text)
    (hlength : j.rest.length < i.rest.length) :
    Agrees site (fun _ => 0) (predicate inner) (Parser.predicate inner') j :=
  (h.beyond hi hj hlength).andThen fun e _ hk _ => agrees_closing hk ']' e

theorem agrees_predicates (h : AgreesBelow d inner inner') (hi : Ready site d Rule.predicates.rank i) :
    Agrees site (fun _ => 0) (predicates inner) (Parser.predicates inner') i :=
  hi.agrees_enter fun _ hi => agrees_items (fun _ hj => agrees_mark hj '[')
    (fun _ hj hlength => agrees_predicate h hi hj hlength) hi.isIn

theorem agrees_qname (hi : i.IsIn site.text) : Agrees site (fun _ => 0) qname Parser.qualifiedName i := by
  refine (agrees_identifier hi).andThen fun first j hj _ => ?_
  refine .look (runs_peekChar hj) (.look (runs_peekStr hj _) (.get_bind (.ite (fun hcolon => ?_) fun _ => ?_)))
  · have hmove := runs_advance_one hj (beq_iff_eq.mp (Bool.and_eq_true_iff.mp hcolon).1) (by decide)
    refine .move hmove (j.length_drop_le 1) ?_
    exact (agrees_identifier (hj.drop 1)).andThen fun _ _ hk _ => .pure hk rfl
  · exact .pure hj rfl

/-- The name in front of an axis, the place behind it and its blanks, and whether two colons are there. -/
theorem runs_axisAhead (hi : i.IsIn site.text) :
    Runs site (ahead do let name ← ncName; skipBlanks; pure (name, ← peekStr [':', ':'])) i
      ((i.name, (i.drop i.name.length).skipBlanks.startsWith [':', ':']), (i.drop i.name.length).skipBlanks.offset)
      i := by
  have hj : (i.drop i.name.length).IsIn site.text := hi.drop _
  refine Runs.ahead ((runs_ncName hi).bind ((runs_skipBlanks hj).bind ?_))
  exact (runs_peekStr (hj.drop _) _).bind (Runs.pure _ _)

theorem agrees_axis (hi : i.IsIn site.text) : Agrees site (fun _ => 0) axis Parser.axis i := by
  refine (agrees_consumeChar hi '@').andThen fun found j hj _ => .ite (fun _ => .pure hj rfl) fun _ => ?_
  refine .look (runs_axisAhead hj) (.get_bind (.ite (fun hcolons => ?_) fun _ => .pure hj rfl))
  have hbehind : (j.drop j.name.length).skipBlanks.IsIn site.text := (hj.drop _).drop _
  cases Axis.ofName? (String.ofList j.name) with
  | none => exact .fail hj (by rintro ⟨⟩)
  | some a =>
    have hmove := runs_moveTo (hbehind.drop 2) j
    rw [show 2 = [':', ':'].length from rfl, Input.offset_drop_word (Bool.and_eq_true_iff.mp hcolons).2] at hmove
    refine .move hmove ?_ (.pure (hbehind.drop 2) rfl)
    exact Nat.le_trans (Input.length_drop_le _ _)
      (Nat.le_trans (Input.length_skipBlanks_le _) (Input.length_drop_le _ _))

theorem runs_peekQuote (hi : i.IsIn site.text) : Runs site peekQuote i i.atQuote i :=
  (runs_peekChar hi).bind (Runs.pure _ _)

theorem agrees_nodeTypeTail (hi : i.IsIn site.text) (type : NodeType) :
    Agrees site (fun _ => 0) (nodeTypeTail type) (Parser.nodeTypeTail type) i := by
  refine (agrees_skipBlanks hi).andThen fun _ j hj _ => ?_
  refine .look (runs_peekQuote hj) (.get_bind (.ite (fun _ => ?_) fun _ => ?_))
  · exact (agrees_quotedString hj).andThen fun target _ hk _ => agrees_closing hk ')' (NodeTest.instruction target)
  · exact (agrees_expect hj ')').andThen fun _ _ hend _ => .pure hend rfl

theorem agrees_nodeTest (hi : i.IsIn site.text) : Agrees site (fun _ => 0) nodeTest Parser.nodeTest i := by
  refine (agrees_consumeChar hi '*').andThen fun found start hstart _ => .ite (fun _ => .pure hstart rfl) fun _ => ?_
  refine .look (Runs.get start) (.get_bind ?_)
  refine (agrees_identifier hstart).andThen fun first j hj hlength => ?_
  refine .look (runs_peekChar hj) (.look (runs_peekStr hj _) (.get_bind (.ite (fun hcolon => ?_) fun _ => ?_)))
  · have hmove := runs_advance_one hj (beq_iff_eq.mp (Bool.and_eq_true_iff.mp hcolon).1) (by decide)
    refine .move hmove (j.length_drop_le 1) ?_
    refine (agrees_consumeChar (hj.drop 1) '*').andThen fun found k hk _ => .ite (fun _ => .pure hk rfl) fun _ => ?_
    exact (agrees_identifier hk).andThen fun _ _ hl _ => .pure hl rfl
  have hbehind : j.skipBlanks.IsIn site.text := hj.drop _
  refine .look (Runs.ahead ((runs_skipBlanks hj).bind (runs_peekChar hbehind))) (.ite (fun hopen => ?_) fun _ => ?_)
  · cases NodeType.ofName? first with
    | none =>
      -- The error shows where the name begins, so that the cursor goes back there.
      exact .of_error rfl (runs_moveTo hstart j).runAt_bind hstart (by rintro ⟨⟩)
    | some type =>
      have hmove := runs_moveTo (hbehind.drop 1) j
      rw [Input.offset_drop_one (beq_iff_eq.mp hopen) (by decide)] at hmove
      refine .move hmove ?_ (agrees_nodeTypeTail (hbehind.drop 1) type)
      exact Nat.le_trans (Input.length_drop_le _ _) (Input.length_skipBlanks_le _)
  · exact .pure hj rfl

theorem agrees_step (h : AgreesBelow d inner inner') (hi : Ready site d Rule.step.rank i) :
    Agrees site (fun _ => 0) (step inner) (Parser.step inner') i := by
  refine hi.agrees_enter fun site hi => (agrees_skipBlanks hi.isIn).andThen fun _ j hj hjlength => ?_
  refine (agrees_consumeStr hj _).andThen fun _ k hk hklength => .ite (fun _ => .pure hk rfl) fun _ => ?_
  refine (agrees_consumeChar hk '.').andThen fun _ l hl hllength => .ite (fun _ => .pure hl rfl) fun _ => ?_
  refine (agrees_axis hl).andThen fun axis m hm hmlength => (agrees_skipBlanks hm).andThen fun _ n hn hnlength => ?_
  refine (agrees_nodeTest hn).andThen fun test o ho holength => ?_
  exact (agrees_predicates h (hi.later ho (by omega) (by decide))).andThen fun _ _ hend _ => .pure hend rfl

theorem agrees_stepsFrom (h : AgreesBelow d inner inner') {r : Nat} (hi : Ready site d r i) {n m : Nat}
    (hn : Input.bytes i.rest < n) (hm : i.rest.length < m) (taken : List Step) :
    Agrees site (fun _ => 0) (loopFrom (stepsTurn inner) n taken) (Parser.stepsFrom inner' m taken) i := by
  induction n generalizing i m taken with
  | zero => omega
  | succ n ih =>
    obtain ⟨m, rfl⟩ : ∃ l, m = l + 1 := ⟨m - 1, by omega⟩
    -- Behind one or two slashes there is a step, and then the next turn.
    have hstep : ∀ taken k, k.IsIn site.text → k.rest.length < i.rest.length → Agrees site (fun _ => 0)
        (do
          let first ← step inner
          pure (.again (first :: taken)) >>= Turn.follow (loopFrom (stepsTurn inner) n) i.offset)
        (do let first ← Parser.step inner'; Parser.stepsFrom inner' m (first :: taken)) k := by
      intro taken k hk hklength
      refine (agrees_step h (hi.beyond hk hklength _)).andThen fun first l hl hlength => ?_
      have hbytes := hi.isIn.bytes_lt hl (by omega)
      exact .again hi.isIn hl (by omega) (ih (hi.beyond hl (by omega) r) (by omega) (by omega) _)
    refine .look (Runs.get i) ?_
    rw [stepsTurn, bind_assoc]
    refine (agrees_skipBlanks hi.isIn).andThen fun _ j hj hjlength => ?_
    rw [bind_assoc]
    refine (agrees_consumeStr hj _).andThen fun found k hk hklength => ?_
    cases found with
    | true =>
      change k.rest.length + 2 ≤ j.rest.length at hklength
      simp only [if_true, bind_assoc]
      exact hstep _ k hk (by omega)
    | false =>
      simp only [Bool.false_eq_true, if_false] at hklength ⊢
      rw [bind_assoc]
      refine (agrees_consumeChar hk '/').andThen fun found l hl hllength => ?_
      cases found with
      | true =>
        simp only [if_true, bind_assoc] at hllength ⊢
        exact hstep _ l hl (by omega)
      | false => exact .done (.pure hl rfl)

theorem agrees_stepTail (h : AgreesBelow d inner inner') (hi : Ready site d Rule.stepTail.rank i) (taken : List Step) :
    Agrees site (fun _ => 0) (stepTail inner taken) (Parser.steps inner' taken) i :=
  hi.agrees_enter fun _ hi => .loop hi.isIn fun _ hn => .bounded fun _ hm => agrees_stepsFrom h hi hn hm taken

/-- A step and those behind it, as a path. -/
theorem agrees_stepAndTail (h : AgreesBelow d inner inner') (hi : Ready site d Rule.stepTail.rank i) (absolute : Bool)
    (before : List Step) : Agrees site (fun _ => 0)
      (do let first ← step inner; pure (Expr.path absolute (← stepTail inner (first :: before))))
      (do let first ← Parser.step inner'; pure (Expr.path absolute (← Parser.steps inner' (first :: before)))) i := by
  refine (agrees_step h (hi.later hi.isIn (Nat.le_refl _) (by decide))).andThen fun first j hj hlength => ?_
  exact (agrees_stepTail h (hi.later hj hlength (Nat.le_refl _)) _).andThen fun _ _ hend _ => .pure hend rfl

/-- A path without a slash at its front is told here by a look, and there by words that are not next. -/
theorem agrees_locationPath (h : AgreesBelow d inner inner') (hi : Ready site d Rule.locationPath.rank i) :
    Agrees site (fun _ => 0) (locationPath inner) (Parser.locationPath inner') i := by
  refine hi.agrees_enter fun site hi => .look (runs_peekChar hi.isIn) ?_
  by_cases hslash : i.peek? = some '/'
  · rw [if_pos (beq_iff_eq.mpr hslash)]
    cases hskip : i.skip? ['/', '/'] with
    | some j =>
      have hlength := Input.length_of_skip? hskip
      obtain ⟨-, rfl⟩ := Input.of_skip? hskip
      refine .behind (runs_consumeStr_true hi.isIn hskip) (by omega) (Agrees.run_bind (run_accept_of_some hskip)) ?_
      exact agrees_stepAndTail h (hi.later (hi.isIn.drop _) (by omega) (by decide)) true _
    | none =>
      obtain ⟨cs, hrest⟩ := List.head?_eq_some_iff.mp hslash
      have hone : i.skip? ['/'] = some (i.drop 1) := Input.skip?_eq_some hrest
      have hlength := Input.length_of_skip? hone
      refine .behind (runs_consumeStr_false hi.isIn hskip) (Nat.le_refl _)
        (Agrees.run_bind (run_accept_of_none hskip)) ?_
      refine .behind (runs_advance_one hi.isIn hslash (by decide)) (by omega)
        (Agrees.run_bind (run_accept_of_some hone)) ?_
      refine (agrees_skipBlanks (hi.isIn.drop 1)).andThen fun _ j hj hjlength => ?_
      refine .look (runs_peekChar hj) (.get_bind (.ite (fun _ => .pure hj rfl) fun _ => ?_))
      exact agrees_stepAndTail h (hi.later hj (by omega) (by decide)) true []
  · rw [if_neg (mt beq_iff_eq.mp hslash)]
    refine .unseen (run_accept_of_none (Input.skip?_eq_none (isPrefixOf_eq_false hslash))) ?_
    refine .unseen (run_accept_of_none (Input.skip?_eq_none (isPrefixOf_eq_false hslash))) ?_
    exact agrees_stepAndTail h (hi.later hi.isIn (Nat.le_refl _) (by decide)) false []

/-- Whether a name begins a path is told by looks ahead alone, wherever they end. -/
theorem exists_runs_probeName (hi : i.IsIn site.text) : ∃ j, Runs site probeName i (Parser.nameStartsPath i) j := by
  have hbehind : (i.drop i.name.length).skipBlanks.IsIn site.text := (hi.drop _).drop _
  refine Exists.imp (fun j hrun =>
    (runs_ncName hi).bind ((runs_skipBlanks (hi.drop _)).bind ((runs_peekStr hbehind _).bind hrun))) ?_
  simp only [Parser.nameStartsPath]
  generalize (i.drop i.name.length).skipBlanks = behind at hbehind ⊢
  by_cases hcolons : behind.startsWith [':', ':'] = true
  · rw [if_pos hcolons, if_pos hcolons]
    exact ⟨_, Runs.pure _ _⟩
  rw [if_neg hcolons, if_neg hcolons]
  refine Exists.imp (fun j hrun => (runs_peekChar hbehind).bind hrun) ?_
  by_cases hcolon : (behind.peek? == some ':') = true
  · rw [if_pos hcolon, if_pos hcolon]
    have hlocal := hbehind.drop 1
    refine Exists.imp (fun j hrun => (runs_advance_one hbehind (beq_iff_eq.mp hcolon) (by decide)).bind
      ((runs_peekChar hlocal).bind hrun)) ?_
    by_cases hstar : ((behind.drop 1).peek? == some '*') = true
    · rw [if_pos hstar, if_pos hstar]
      exact ⟨_, Runs.pure _ _⟩
    · rw [if_neg hstar, if_neg hstar]
      have hend : ((behind.drop 1).drop (behind.drop 1).name.length).skipBlanks.IsIn site.text :=
        (hlocal.drop _).drop _
      exact ⟨_, (runs_ncName hlocal).bind ((runs_skipBlanks (hlocal.drop _)).bind
        ((runs_peekChar hend).bind (Runs.pure _ _)))⟩
  · rw [if_neg hcolon, if_neg hcolon]
    refine Exists.imp (fun j hrun => (runs_peekChar hbehind).bind hrun) ?_
    by_cases hopen : (behind.peek? == some '(') = true
    · rw [if_pos hopen, if_pos hopen]
      exact ⟨_, Runs.pure _ _⟩
    · rw [if_neg hopen, if_neg hopen]
      exact ⟨_, Runs.pure _ _⟩

theorem runs_startsPath (hi : i.IsIn site.text) : Runs site startsPath i (Parser.startsPath i) i := by
  refine (runs_peekChar hi).bind ?_
  unfold Parser.startsPath Input.peek?
  cases hrest : i.rest with
  | nil => exact Runs.pure _ _
  | cons c cs =>
    refine .ite (fun _ => Runs.pure _ _) fun _ => .ite (fun _ => ?_) fun _ => .ite (fun _ => ?_) fun _ => Runs.pure _ _
    · have hpeek := runs_peekNth hi 1
      rw [hrest, List.getElem?_cons_succ, ← List.head?_eq_getElem?] at hpeek
      exact hpeek.bind (Runs.pure _ _)
    · obtain ⟨j, hprobe⟩ := exists_runs_probeName hi
      exact hprobe.ahead.bind (Runs.pure _ _)

end

/-! ## §E  Primary expressions -/

section

variable {site : Site} {i : Input} {d : Nat} {inner : ByteReader Expr} {inner' : Parser Expr}

/-- Items that are taken already are in front of those that are read. -/
theorem itemsFrom_append {more : Parser Bool} {item : Parser α} (before : List α) (n : Nat) (taken : List α) :
    Parser.itemsFrom more item n (taken ++ before) =
      (before.reverse ++ ·) <$> Parser.itemsFrom more item n taken := by
  induction n generalizing taken with
  | zero => simp [Parser.itemsFrom]
  | succ n ih =>
    simp only [Parser.itemsFrom, map_bind]
    refine congrArg _ (funext fun found => ?_)
    cases found with
    | false => simp
    | true => simp [← ih]

/-- A turn here ends behind a comma, and there in front of one. -/
theorem agrees_argumentsFrom
    (hinner : ∀ j, j.IsIn site.text → j.rest.length ≤ i.rest.length → Agrees site (fun _ => 0) inner inner' j)
    (hi : i.IsIn site.text) {n : Nat} (hn : Input.bytes i.rest < n) {fuel : Input → Nat}
    (hfuel : ∀ j, j.rest.length ≤ i.rest.length → j.rest.length < fuel j) (taken : List Expr) :
    Agrees site (fun _ => 0) (loopFrom (argumentsTurn inner) n taken) (do
      let e ← inner'
      let j ← get
      let es ← Parser.itemsFrom (Parser.mark ',') inner' (fuel j) (e :: taken)
      Parser.expect ')'
      pure es) i := by
  induction n generalizing i fuel taken with
  | zero => omega
  | succ n ih =>
    refine .look (Runs.get i) ?_
    rw [argumentsTurn, bind_assoc]
    refine (hinner i hi (Nat.le_refl _)).andThen fun e j hj hjlength => .get_bind ?_
    obtain ⟨m, hm⟩ : ∃ m, fuel j = m + 1 := ⟨fuel j - 1, by have := hfuel j hjlength; omega⟩
    rw [hm, Parser.itemsFrom, bind_assoc, bind_assoc]
    refine (agrees_mark hj ',').andThen fun found k hk hklength => ?_
    cases found with
    | false =>
      simp only [Bool.false_eq_true, if_false, bind_assoc]
      exact (agrees_expect hk ')').andThen fun _ _ hl _ => .done (.pure hl rfl)
    | true =>
      simp only [if_true, bind_assoc] at hklength ⊢
      have hbytes := hi.bytes_lt hk (by omega)
      have hfuel' : ∀ l : Input, l.rest.length ≤ k.rest.length → l.rest.length < m := by
        intro l hl
        have := hfuel j hjlength
        omega
      exact .again hi hk (by omega)
        (ih (fun l hl hle => hinner l hl (by omega)) hk (by omega) hfuel' (e :: taken))

/-- The arguments of a call. The parenthesis behind the last is taken by the last turn. -/
theorem agrees_arguments
    (hinner : ∀ j, j.IsIn site.text → j.rest.length ≤ i.rest.length → Agrees site (fun _ => 0) inner inner' j)
    (hi : i.IsIn site.text) : Agrees site (fun _ => 0) (arguments inner) (Parser.arguments inner') i := by
  refine (agrees_skipBlanks hi).andThen fun _ j hj hjlength => ?_
  refine (agrees_consumeChar hj ')').andThen fun found k hk hklength => .ite (fun _ => .pure hk rfl) fun _ => ?_
  have hfuel : ∀ l : Input, l.rest.length ≤ k.rest.length → l.rest.length < l.rest.length + 1 :=
    fun _ _ => Nat.lt_succ_self _
  have hturns := Agrees.loop hk fun n hn =>
    agrees_argumentsFrom (fun l hl hle => hinner l hl (by omega)) hk hn hfuel []
  have happend : ∀ e n, Parser.itemsFrom (Parser.mark ',') inner' n [e] =
      (e :: ·) <$> Parser.itemsFrom (Parser.mark ',') inner' n [] := fun e n => itemsFrom_append [e] n []
  simp only [happend, bind_map_left] at hturns
  exact hturns

theorem agrees_functionCall (h : AgreesBelow d inner inner') (hi : Ready site d Rule.functionCall.rank i) :
    Agrees site (fun _ => 0) (functionCall inner) (Parser.functionCall inner') i := by
  refine hi.agrees_enter fun site hi => (agrees_qname hi.isIn).andThen fun name j hj hjlength => ?_
  obtain ⟨qualifier, localName⟩ := name
  refine (agrees_skipBlanks hj).andThen fun _ k hk hklength => ?_
  refine (agrees_expect hk '(').andThen fun _ l hl hllength => ?_
  have hinner : ∀ m, m.IsIn site.text → m.rest.length ≤ l.rest.length → Agrees site (fun _ => 0) inner inner' m :=
    fun m hm hmlength => h.beyond hi hm (by omega)
  refine (agrees_arguments hinner hl).andThen fun args m hm _ => ?_
  cases qualifier with
  | some q => exact .pure hm rfl
  | none =>
    cases CoreFunction.ofName? localName with
    | none => exact .pure hm rfl
    | some f => exact .pure hm rfl

theorem agrees_primary (h : AgreesBelow d inner inner') (hi : Ready site d Rule.primary.rank i) :
    Agrees site (fun _ => 0) (primary inner) (Parser.primary inner') i := by
  refine hi.agrees_enter fun site hi => (agrees_skipBlanks hi.isIn).andThen fun _ j hj hjlength => ?_
  refine .look (runs_peekChar hj) (.get_bind ?_)
  cases hpeek : j.peek? with
  | none => exact .fail hj (by decide)
  | some c =>
    have hlength := Input.length_pos_of_peek? (beq_iff_eq.mpr hpeek)
    refine .ite (fun hc => ?_) fun _ => .ite (fun hc => ?_) fun _ => .ite (fun _ => ?_) fun _ => .ite (fun _ => ?_)
      fun _ => .ite (fun _ => ?_) fun _ => .fail hj (by rintro ⟨⟩)
    · have hone : c.utf8Size = 1 := by rw [beq_iff_eq.mp hc]; decide
      refine .move (runs_advance_one hj hpeek hone) (j.length_drop_le 1) ?_
      refine (agrees_qname (hj.drop 1)).andThen fun name k hk _ => ?_
      exact .pure hk rfl
    · have hone : c.utf8Size = 1 := by rw [beq_iff_eq.mp hc]; decide
      have hdrop := j.length_drop 1
      refine .move (runs_advance_one hj hpeek hone) (j.length_drop_le 1) ?_
      exact (h.beyond hi (hj.drop 1) (by omega)).andThen fun e _ hk _ => agrees_closing hk ')' e
    · exact (agrees_quotedString hj).andThen fun _ _ hend _ => .pure hend rfl
    · exact (agrees_numberLiteral hj).andThen fun _ _ hend _ => .pure hend rfl
    · exact agrees_functionCall h (hi.later hj hjlength (by decide))

theorem agrees_path (h : AgreesBelow d inner inner') (hi : Ready site d Rule.path.rank i) :
    Agrees site (fun _ => 0) (path inner) (Parser.path inner') i := by
  refine hi.agrees_enter fun site hi => (agrees_skipBlanks hi.isIn).andThen fun _ j hj hjlength => ?_
  refine .look (runs_startsPath hj) (.get_bind (.ite (fun _ => ?_) fun _ => ?_))
  · exact agrees_locationPath h (hi.later hj hjlength (by decide))
  refine (agrees_primary h (hi.later hj hjlength (by decide))).andThen fun head k hk hklength => ?_
  refine (agrees_predicates h (hi.later hk (by omega) (by decide))).andThen fun es l hl hllength => ?_
  refine (agrees_skipBlanks hl).andThen fun _ m hm hmlength => ?_
  refine .look (runs_peekChar hm) (.get_bind (.ite (fun _ => ?_) fun _ => .pure hm rfl))
  exact (agrees_stepTail h (hi.later hm (by omega) (by decide)) []).andThen fun _ _ hend _ => .pure hend rfl

end

/-! ## §F  Operators -/

section

variable {site : Site} {i : Input} {d : Nat} {inner : ByteReader Expr} {inner' : Parser Expr}

theorem agrees_union (h : AgreesBelow d inner inner') (hi : Ready site d Rule.union.rank i) :
    Agrees site (fun _ => 0) (union inner) (Parser.union inner') i :=
  hi.agrees_enter fun _ hi => agrees_operands (fun _ hj => agrees_mark hj '|')
    (fun _ hj hlength => agrees_path h (hi.later hj hlength (by decide))) hi.isIn

/-- Between two minus signs nothing else is under way that has begun behind the first of them. -/
theorem agrees_unaryFrom (h : AgreesBelow d inner inner') (hi : Ready site d Rule.unary.rank i) {n m : Nat}
    (hn : i.rest.length < n) (hm : i.rest.length < m) :
    Agrees site (fun _ => 0) (unaryFrom inner n) (Parser.unaryFrom inner' m) i := by
  induction n generalizing i m site with
  | zero => omega
  | succ n ih =>
    obtain ⟨m, rfl⟩ : ∃ l, m = l + 1 := ⟨m - 1, by omega⟩
    refine hi.agrees_enter fun site hi => (agrees_skipBlanks hi.isIn).andThen fun _ j hj hjlength => ?_
    refine (agrees_consumeChar hj '-').andThen fun found k hk hklength => .ite (fun hfound => ?_) fun _ => ?_
    · rw [if_pos hfound] at hklength
      refine (ih (hi.beyond hk (by omega) _) (by omega) (by omega)).andThen fun e l hl _ => ?_
      exact .pure hl rfl
    · exact agrees_union h (hi.later hk (by omega) (by decide))

theorem agrees_unary (h : AgreesBelow d inner inner') (hi : Ready site d Rule.unary.rank i) :
    Agrees site (fun _ => 0) (unary inner) (Parser.unary inner') i := by
  refine .look (Runs.read i) (.bounded fun m hm => agrees_unaryFrom h hi ?_ hm)
  have hlength := Input.length_le_bytes i.rest
  have hoffset := hi.isIn.offset_add
  omega

theorem agrees_multiplicativeOperator (hi : i.IsIn site.text) :
    Agrees site (fun found => if found.isSome then 1 else 0) multiplicativeOperator
      Parser.multiplicativeOperator i := by
  refine (agrees_skipBlanks hi).after fun _ j hj _ => ?_
  refine agrees_choice (Nat.le_refl _) (agrees_consumeChar hj '*') fun k hk => ?_
  refine agrees_choice (by decide) (agrees_keyword hk "div") fun l hl => ?_
  exact agrees_choice (by decide) (agrees_keyword hl "mod") fun m hm => .pure hm rfl

/-- A level of operators that group to the left, over the level below it. -/
theorem agrees_leftLevel {r : Rule} {operator : ByteReader (Option Operator)} {operator' : Parser (Option Operator)}
    {operand : ByteReader Expr} {operand' : Parser Expr}
    (hoperator : ∀ site j, j.IsIn site.text →
      Agrees site (fun found => if found.isSome then 1 else 0) operator operator' j)
    (hoperand : ∀ site j, Ready site d (r.rank + 1) j → Agrees site (fun _ => 0) operand operand' j)
    (hi : Ready site d r.rank i) :
    Agrees site (fun _ => 0) (enter r (left operator operand)) (Parser.left operator' operand') i :=
  hi.agrees_enter fun site hi => agrees_left (hoperator site)
    (fun j hj hlength => hoperand site j (hi.later hj hlength (Nat.le_refl _))) hi.isIn

/-- A level of operators that take any number of operands, over the level below it. -/
theorem agrees_operandsLevel {r : Rule} {op : Operator} {word : String} {operand : ByteReader Expr}
    {operand' : Parser Expr} (hword : 1 ≤ word.toList.length)
    (hoperand : ∀ site j, Ready site d (r.rank + 1) j → Agrees site (fun _ => 0) operand operand' j)
    (hi : Ready site d r.rank i) : Agrees site (fun _ => 0) (enter r (operands op (keyword word) operand))
      (Parser.operands op (Parser.keyword word) operand') i :=
  hi.agrees_enter fun site hi => agrees_operands
    (fun j hj => (agrees_keyword hj word).mono fun found => by cases found <;> simp [hword])
    (fun j hj hlength => hoperand site j (hi.later hj hlength (Nat.le_refl _))) hi.isIn

theorem agrees_multiplicative (h : AgreesBelow d inner inner') (hi : Ready site d Rule.multiplicative.rank i) :
    Agrees site (fun _ => 0) (multiplicative inner) (Parser.multiplicative inner') i :=
  agrees_leftLevel (fun _ _ hj => agrees_multiplicativeOperator hj) (fun _ _ hj => agrees_unary h hj) hi

theorem agrees_additive (h : AgreesBelow d inner inner') (hi : Ready site d Rule.additive.rank i) :
    Agrees site (fun _ => 0) (additive inner) (Parser.additive inner') i :=
  agrees_leftLevel (fun _ _ hj => agrees_symbolic _ hj) (fun _ _ hj => agrees_multiplicative h hj) hi

theorem agrees_relational (h : AgreesBelow d inner inner') (hi : Ready site d Rule.relational.rank i) :
    Agrees site (fun _ => 0) (relational inner) (Parser.relational inner') i :=
  agrees_leftLevel (fun _ _ hj => agrees_symbolic _ hj) (fun _ _ hj => agrees_additive h hj) hi

theorem agrees_equality (h : AgreesBelow d inner inner') (hi : Ready site d Rule.equality.rank i) :
    Agrees site (fun _ => 0) (equality inner) (Parser.equality inner') i :=
  agrees_leftLevel (fun _ _ hj => agrees_symbolic _ hj) (fun _ _ hj => agrees_relational h hj) hi

theorem agrees_conjunction (h : AgreesBelow d inner inner') (hi : Ready site d Rule.conjunction.rank i) :
    Agrees site (fun _ => 0) (conjunction inner) (Parser.conjunction inner') i :=
  agrees_operandsLevel (by decide) (fun _ _ hj => agrees_equality h hj) hi

theorem agrees_disjunction (h : AgreesBelow d inner inner') (hi : Ready site d Rule.disjunction.rank i) :
    Agrees site (fun _ => 0) (disjunction inner) (Parser.disjunction inner') i :=
  agrees_operandsLevel (by decide) (fun _ _ hj => agrees_conjunction h hj) hi

end

/-! ## §G  Whole texts -/

/-- **At any place of a text** the two grammars read the same expression, or fail alike. By induction on the depth:
an expression in another one has fewer characters in front of it. -/
theorem agrees_expression {depth depth' : Nat} {site : Site} {i : Input} (hi : Ready site i.rest.length 0 i)
    (hdepth : i.rest.length < depth) (hdepth' : i.rest.length < depth') :
    Agrees site (fun _ => 0) (expression depth) (Parser.expression depth') i := by
  induction depth generalizing depth' site i with
  | zero => omega
  | succ depth ih =>
    obtain ⟨depth', rfl⟩ : ∃ l, depth' = l + 1 := ⟨depth' - 1, by omega⟩
    refine agrees_disjunction (fun site j hj hlength => ih ⟨hj.isIn, Nat.le_refl _, hj.fits⟩ ?_ ?_) hi
    · omega
    · omega

/-- At the end no byte is left. -/
theorem atEnd_eq {s : String} {i : Input} (hi : i.IsIn s) : i.atEnd = decide (s.utf8ByteSize ≤ i.offset) := by
  have hoffset := hi.offset_add
  have hlength := Input.length_le_bytes i.rest
  unfold Input.atEnd
  cases hrest : i.rest with
  | nil =>
    have hnone : Input.bytes [] = 0 := rfl
    rw [hrest, hnone] at hoffset
    exact (decide_eq_true (by omega)).symm
  | cons c cs =>
    rw [hrest, List.length_cons] at hlength
    rw [hrest] at hoffset
    exact (decide_eq_false (by omega)).symm

theorem agrees_wholeText (s : String) :
    Agrees ⟨s, []⟩ (fun _ => 0) wholeText Parser.wholeText (Input.ofString s) := by
  refine (agrees_skipBlanks (Input.isIn_ofString s)).andThen fun _ i hi _ => .look (Runs.read i) ?_
  have hdepth : i.rest.length < s.utf8ByteSize + 1 := by
    have hoffset := hi.offset_add
    have hlength := Input.length_le_bytes i.rest
    simp only at hoffset
    omega
  have hready : Ready ⟨s, []⟩ i.rest.length 0 i := ⟨hi, Nat.le_refl _, fun _ h => absurd h List.not_mem_nil⟩
  refine Agrees.andThen (.bounded fun n hn => agrees_expression hready hdepth hn) fun e j hj _ => ?_
  refine (agrees_skipBlanks hj).andThen fun _ k hk _ => .look (Runs.read k) (.look (Runs.get k) (.get_bind ?_))
  rw [atEnd_eq hk]
  simp only [decide_eq_true_eq]
  exact .ite (fun _ => .pure hk rfl) fun _ => .fail hk (by decide)

end ByteReader

/-- **Reading an expression is safe on every text.** It ends with a tree, or with an error at a boundary between
characters of the text; and it ends alike if every slice, every loop and every rule on the way is checked, so that no
check fails. -/
theorem Expr.parse_safe (s : String) :
    (∃ e, Expr.parse s = .ok e ∧ ByteReader.parse s = .ok e) ∨
      ∃ err, Expr.parse s = .error err ∧ ByteReader.parse s = .error (.invalid err) ∧ err.fault ≠ .tooDeep ∧
        err.position ≤ s.utf8ByteSize ∧ (String.Pos.Raw.mk err.position).IsValid s := by
  have hagrees := ByteReader.agrees_wholeText s
  unfold Expr.parse ByteReader.parse
  rw [StateT.run'_eq]
  cases hrun : Parser.wholeText.run (Input.ofString s) with
  | ok r =>
    obtain ⟨e, j⟩ := r
    obtain ⟨hruns, -, -⟩ := hagrees.ok e j hrun
    refine .inl ⟨e, rfl, ?_⟩
    rw [show 0 = (Input.ofString s).offset from rfl, hruns]
    rfl
  | error err =>
    obtain ⟨hfails, ⟨i, hi, hposition⟩, hfault⟩ := hagrees.error err hrun
    obtain ⟨hvalid, -⟩ := hi.exists_isValid
    have hoffset : i.offset + Input.bytes i.rest = s.utf8ByteSize := hi.offset_add
    refine .inr ⟨err, rfl, ?_, hfault, by omega, hposition ▸ hvalid⟩
    rw [show 0 = (Input.ofString s).offset from rfl, hfails]
    rfl

end NodePath
