/-
# NodePath.Error — what can go wrong

An error is a cause; its wording is one function. Five kinds of errors are for the outside: they carry
the text of the expression they belong to. All others arise inside an evaluation, where that text is not
known, and **atPath** attaches it when they leave.

* §A  `ParseError`: a text that is no expression, and where.
* §B  `Fault` and `Refusal`: failures of an evaluation, and operations a node does not allow.
* §C  `EvalError`, its `message`, and `atPath`.
-/

namespace NodePath

/-! ## §A  Texts that are no expressions -/

/-- What is wrong with the text of an expression. -/
inductive SyntaxFault where
  | expected (c : Char)
  | unexpected (c : Char)
  | unexpectedEnd
  | trailing
  | nameExpected
  | numberExpected
  | quoteExpected
  | unterminated
  | unknownAxis (name : String)
  | notANodeType (name : String)
  | tooDeep
deriving DecidableEq, Repr

/-- The wording of a fault. -/
def SyntaxFault.message : SyntaxFault → String
  | expected c => "expected '" ++ c.toString ++ "'"
  | unexpected c => "unexpected '" ++ c.toString ++ "'"
  | unexpectedEnd => "unexpected end of expression"
  | trailing => "unexpected trailing input"
  | nameExpected => "name expected"
  | numberExpected => "number expected"
  | quoteExpected => "expected quoted string"
  | unterminated => "unterminated string"
  | unknownAxis name => "unknown axis '" ++ name ++ "'"
  | notANodeType name => "'" ++ name ++ "' is not a node type"
  | tooDeep => "expression nested too deeply"

/-- **ParseError** is a fault and where it shows: so many bytes of the text stand before that place. -/
structure ParseError where
  position : Nat
  fault : SyntaxFault
deriving DecidableEq, Repr

/-- The wording of an error together with its position. -/
def ParseError.message (e : ParseError) : String :=
  e.fault.message ++ " at position " ++ toString e.position

/-! ## §B  Failures of an evaluation -/

/-- **Fault** is a failure of an evaluation. -/
inductive Fault where
  /-- Two nodes, given by their paths, have no order because no tree holds both. -/
  | unrelated (a b : String)
  /-- An operand of a union, as it is quoted, is no node-set. -/
  | notANodeSet (shown : String)
  | negationOperand
  | operandCount (n : Nat)
  | notBinary (operator : String)
  | notSummable
  | unknownFormat (name : String)
  | malformedPattern (pattern : String)
  | positionNotUsable (shown : String)
  | noKeyManager
  | noIdentityManager
  /-- The node to be changed, given by its path, does not exist. -/
  | noNode (path : String)
  /-- A part of a text has a bound that is no index: the computation cannot go on. -/
  | noSlice
  /-- A failure that an extension function reports in its own words. -/
  | reported (message : String)
  /-- The work that one evaluation may take is used up. -/
  | exhausted
deriving DecidableEq, Repr

/-- The wording of a fault. -/
def Fault.message : Fault → String
  | unrelated a b =>
    "cannot compare pointers that do not belong to the same tree: '" ++ a ++ "' and '" ++ b ++ "'"
  | notANodeSet shown => "union operands must be node-sets, found " ++ shown
  | negationOperand => "negation needs an operand"
  | operandCount n => "binary operation expects 2 operands, got " ++ toString n
  | notBinary operator => "'" ++ operator ++ "' is not a binary operator"
  | notSummable => "invalid argument type for 'sum'"
  | unknownFormat name => "unknown decimal format '" ++ name ++ "'"
  | malformedPattern pattern => "malformed format-number pattern '" ++ pattern ++ "'"
  | positionNotUsable shown => "cannot create a node at position " ++ shown
  | noKeyManager => "cannot find an element by key, no key manager has been specified"
  | noIdentityManager => "cannot find an element by id, no identity manager has been specified"
  | noNode path => "no node at " ++ path
  | noSlice => "a part of a text is out of its bounds"
  | reported message => message
  | exhausted => "the evaluation takes too long"

/-- **Refusal** is an operation that is not offered. -/
inductive Refusal where
  /-- The node at `path` does not allow what is asked of it. -/
  | operation (what path : String)
  /-- No factory makes a node of the object named `name`. -/
  | noFactory (name : String)
  /-- A refusal that an extension function reports in its own words. -/
  | reported (message : String)
deriving DecidableEq, Repr

/-- The wording of a refusal. -/
def Refusal.message : Refusal → String
  | operation what path =>
    "cannot " ++ what ++ " at " ++ path ++ ", operation is not allowed for this type of node"
  | noFactory name => "no node pointer factory accepts the object named '" ++ name ++ "'"
  | reported message => message

/-! ## §C  Errors -/

/-- Why an expression is not usable as it stands. -/
inductive InvalidReason where
  | parse (e : ParseError)
  | argumentCount (function : String)
  | notSimple
deriving DecidableEq, Repr

/-- The wording of a reason. -/
def InvalidReason.message : InvalidReason → String
  | parse e => e.message
  | argumentCount function => "Incorrect number of arguments: " ++ function ++ "()"
  | notSimple => "cannot create a path that is not a simple path"

/-- **EvalError** is a failure of any operation. The first five carry the text of their expression. -/
inductive EvalError where
  | notFound (path : String)
  | typeConversion (path : String)
  | functionNotFound (path name : String)
  | invalidSyntax (path : String) (reason : InvalidReason)
  | wrapped (path : String) (cause : EvalError)
  | evaluation (fault : Fault)
  | concurrentIteration
  | unsupported (refusal : Refusal)
  | undefinedVariable (name : String)
  | undefinedFunction (name : String)
  | invalidArguments (function : String)
  | parse (e : ParseError)
  | json
deriving DecidableEq, Repr

namespace EvalError

/-- **message** is the wording of an error. -/
def message : EvalError → String
  | notFound path => "no value for xpath: " ++ path
  | typeConversion path => "cannot convert value of " ++ path
  | functionNotFound path name => "undefined function: " ++ name ++ " (in " ++ path ++ ")"
  | invalidSyntax path reason => "invalid xpath " ++ path ++ ": " ++ reason.message
  | wrapped path cause => "exception evaluating xpath " ++ path ++ ": " ++ cause.message
  | evaluation fault => "evaluation error: " ++ fault.message
  | concurrentIteration =>
    "simultaneous operations: node set requested while iterating over an evaluation context"
  | unsupported refusal => "unsupported operation: " ++ refusal.message
  | undefinedVariable name => "undefined variable: " ++ name
  | undefinedFunction name => "undefined function: " ++ name
  | invalidArguments function => (InvalidReason.argumentCount function).message
  | parse e => "parse error at " ++ toString e.position ++ ": " ++ e.fault.message
  | json => "invalid JSON"

/-- The error inside all wrappings. -/
def innermost : EvalError → EvalError
  | wrapped _ cause => cause.innermost
  | e => e

/-- **atPath** attaches the text of an expression to an error that has none yet. -/
def atPath (path : String) : EvalError → EvalError
  | notFound p => notFound p
  | typeConversion p => typeConversion p
  | functionNotFound p name => functionNotFound p name
  | invalidSyntax p reason => invalidSyntax p reason
  | wrapped p cause => wrapped p cause
  | parse e => invalidSyntax path (.parse e)
  | undefinedFunction name => functionNotFound path name
  | invalidArguments function => invalidSyntax path (.argumentCount function)
  | e => wrapped path e

end EvalError

end NodePath
