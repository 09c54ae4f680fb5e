/-
# NodePath.Expr.Printer — expression trees as text

The printed form spells every step with its axis and puts parentheses around every operation of two or
more operands, so that it can be read without knowing how strongly operators bind.

* §A  Texts in quotes.
* §B  Node tests.
* §C  `print`.
-/
import NodePath.Expr.Basic

namespace NodePath

namespace Expr

/-! ## §A  Texts -/

/-- The pieces of a text between its single quotes. `piece` holds, last first, the one being read. -/
def splitQuotes (piece : List Char) : List Char → List (List Char)
  | [] => [piece.reverse]
  | c :: cs => if c == '\'' then piece.reverse :: splitQuotes [] cs else splitQuotes (c :: piece) cs

/-- The arguments that spell a text with both kinds of quotes: its pieces in single quotes, and between
two of them a single quote in double ones. Empty pieces are left out. -/
def concatArguments : List (List Char) → List String
  | [] => []
  | piece :: pieces =>
    let here := if piece.isEmpty then [] else [String.ofList ('\'' :: piece ++ ['\''])]
    match pieces with
    | [] => here
    | _ :: _ => here ++ "\"'\"" :: concatArguments pieces

/-- A text as a literal. A literal has no escapes, so a text with both kinds of quotes is spelled as the
concatenation of several. -/
def printText (s : String) : String :=
  if s.toList.contains '\'' then
    if s.toList.contains '"' then
      "concat(" ++ String.intercalate ", " (concatArguments (splitQuotes [] s.toList)) ++ ")"
    else "\"" ++ s ++ "\""
  else "'" ++ s ++ "'"

/-! ## §B  Node tests -/

/-- A node test as text. -/
def printTest : NodeTest → String
  | .name n => n.written
  | .type t => t.name ++ "()"
  | .instruction target => "processing-instruction('" ++ target ++ "')"

/-! ## §C  Expressions -/

/-- What stands between the operands of an operation. -/
def Operator.between (op : Operator) : String := " " ++ op.symbol ++ " "

mutual
/-- **print** is the expression as text. -/
def print : Expr → String
  | number x => numeral x
  | text s => printText s
  | var n => "$" ++ n.written
  | operation .negate args => "-" ++ printList ", " args
  | operation op args => "(" ++ printList (Operator.between op) args ++ ")"
  | core f args => f.spelling ++ "(" ++ printList ", " args ++ ")"
  | call n args => n.written ++ "(" ++ printList ", " args ++ ")"
  | path absolute [] => if absolute then "/" else "."
  | path true steps => printSteps steps
  | path false (⟨axis, test, predicates⟩ :: steps) =>
    axis.name ++ "::" ++ printTest test ++ printPredicates predicates ++ printSteps steps
  | filter head predicates steps =>
    "(" ++ head.print ++ ")" ++ printPredicates predicates ++ printSteps steps
termination_by structural e => e
/-- Expressions with `between` between them. -/
def printList (between : String) : List Expr → String
  | [] => ""
  | e :: es =>
    match es with
    | [] => e.print
    | _ :: _ => e.print ++ between ++ printList between es
termination_by structural es => es
/-- Expressions in square brackets. -/
def printPredicates : List Expr → String
  | [] => ""
  | e :: es => "[" ++ e.print ++ "]" ++ printPredicates es
termination_by structural es => es
/-- Steps with a slash in front of each. -/
def printSteps : List (StepOf Expr) → String
  | [] => ""
  | ⟨axis, test, predicates⟩ :: steps =>
    "/" ++ axis.name ++ "::" ++ printTest test ++ printPredicates predicates ++ printSteps steps
termination_by structural steps => steps
end

end Expr

end NodePath
