/-
# NodePath.Expr.Vocabulary — axes, node types, core functions, operators

The closed vocabularies of the expression language. Each entry of the first three has a name and a
code; the codes are handed to other programs, so they never change: they count from one in the order
of declaration.

* §A  `Axis`: the directions of a step.
* §B  `NodeType`: the tests by kind of node.
* §C  `CoreFunction`: the functions that every context has.
* §D  `Operator`: the operators and their symbols.
-/

namespace NodePath

/-! ## §A  Axes -/

/-- **Axis** is the direction of a step. -/
inductive Axis where
  | self
  | child
  | parent
  | ancestor
  | attributes
  | namespaces
  | preceding
  | following
  | descendant
  | ancestorOrSelf
  | followingSibling
  | precedingSibling
  | descendantOrSelf
deriving DecidableEq, Repr, Inhabited

namespace Axis

/-- All axes, in the order of their codes. -/
def all : List Axis :=
  [.self, .child, .parent, .ancestor, .attributes, .namespaces, .preceding, .following, .descendant,
    .ancestorOrSelf, .followingSibling, .precedingSibling, .descendantOrSelf]

/-- The name of an axis in front of the double colon. -/
def name : Axis → String
  | self => "self"
  | child => "child"
  | parent => "parent"
  | ancestor => "ancestor"
  | attributes => "attribute"
  | namespaces => "namespace"
  | preceding => "preceding"
  | following => "following"
  | descendant => "descendant"
  | ancestorOrSelf => "ancestor-or-self"
  | followingSibling => "following-sibling"
  | precedingSibling => "preceding-sibling"
  | descendantOrSelf => "descendant-or-self"

/-- The code of an axis. -/
def code (a : Axis) : Nat := a.ctorIdx + 1

/-- The axis with a code. -/
def ofCode? (code : Nat) : Option Axis := if code == 0 then none else all[code - 1]?

/-- The axis with a name. -/
def ofName? (name : String) : Option Axis := all.find? (·.name == name)

/-- Whether the natural order of an axis runs against document order. -/
def isReverse : Axis → Bool
  | ancestor => true
  | ancestorOrSelf => true
  | preceding => true
  | precedingSibling => true
  | _ => false

end Axis

/-! ## §B  Node types -/

/-- **NodeType** is a test by the kind of a node. -/
inductive NodeType where
  | node
  | text
  | comment
  | processingInstruction
deriving DecidableEq, Repr, Inhabited

namespace NodeType

/-- All node types, in the order of their codes. -/
def all : List NodeType := [.node, .text, .comment, .processingInstruction]

/-- The name of a node type in front of its parentheses. -/
def name : NodeType → String
  | node => "node"
  | text => "text"
  | comment => "comment"
  | processingInstruction => "processing-instruction"

/-- The code of a node type. -/
def code (t : NodeType) : Nat := t.ctorIdx + 1

/-- The node type with a code. -/
def ofCode? (code : Nat) : Option NodeType := if code == 0 then none else all[code - 1]?

/-- The node type with a name. -/
def ofName? (name : String) : Option NodeType := all.find? (·.name == name)

end NodeType

/-! ## §C  Core functions -/

/-- **CoreFunction** is a function that every context has. -/
inductive CoreFunction where
  | last
  | position
  | count
  | id
  | localName
  | namespaceUri
  | name
  | string
  | concat
  | startsWith
  | contains
  | substringBefore
  | substringAfter
  | substring
  | stringLength
  | normalizeSpace
  | translate
  | boolean
  | not
  | true
  | false
  | lang
  | number
  | sum
  | floor
  | ceiling
  | round
  | null
  | key
  | formatNumber
  | endsWith
deriving DecidableEq, Repr, Inhabited

namespace CoreFunction

/-- All core functions, in the order of their codes. -/
def all : List CoreFunction :=
  [.last, .position, .count, .id, .localName, .namespaceUri, .name, .string, .concat, .startsWith,
    .contains, .substringBefore, .substringAfter, .substring, .stringLength, .normalizeSpace,
    .translate, .boolean, .not, .true, .false, .lang, .number, .sum, .floor, .ceiling, .round, .null,
    .key, .formatNumber, .endsWith]

/-- The name that calls the function. -/
def spelling : CoreFunction → String
  | last => "last"
  | position => "position"
  | count => "count"
  | id => "id"
  | localName => "local-name"
  | namespaceUri => "namespace-uri"
  | name => "name"
  | string => "string"
  | concat => "concat"
  | startsWith => "starts-with"
  | contains => "contains"
  | substringBefore => "substring-before"
  | substringAfter => "substring-after"
  | substring => "substring"
  | stringLength => "string-length"
  | normalizeSpace => "normalize-space"
  | translate => "translate"
  | boolean => "boolean"
  | not => "not"
  | true => "true"
  | false => "false"
  | lang => "lang"
  | number => "number"
  | sum => "sum"
  | floor => "floor"
  | ceiling => "ceiling"
  | round => "round"
  | null => "null"
  | key => "key"
  | formatNumber => "format-number"
  | endsWith => "ends-with"

/-- The code of a core function. -/
def code (f : CoreFunction) : Nat := f.ctorIdx + 1

/-- The core function with a code. -/
def ofCode? (code : Nat) : Option CoreFunction := if code == 0 then none else all[code - 1]?

/-- The core function that a name calls. -/
def ofName? (name : String) : Option CoreFunction := all.find? (·.spelling == name)

/-- How few and how many arguments a core function takes; without a second number there is no limit. -/
def arity : CoreFunction → Nat × Option Nat
  | last => (0, some 0)
  | position => (0, some 0)
  | true => (0, some 0)
  | false => (0, some 0)
  | null => (0, some 0)
  | localName => (0, some 1)
  | name => (0, some 1)
  | namespaceUri => (0, some 1)
  | string => (0, some 1)
  | stringLength => (0, some 1)
  | number => (0, some 1)
  | count => (1, some 1)
  | id => (1, some 1)
  | boolean => (1, some 1)
  | not => (1, some 1)
  | lang => (1, some 1)
  | sum => (1, some 1)
  | floor => (1, some 1)
  | ceiling => (1, some 1)
  | round => (1, some 1)
  | normalizeSpace => (1, some 1)
  | concat => (2, none)
  | startsWith => (2, some 2)
  | endsWith => (2, some 2)
  | contains => (2, some 2)
  | substringBefore => (2, some 2)
  | substringAfter => (2, some 2)
  | key => (2, some 2)
  | substring => (2, some 3)
  | formatNumber => (2, some 3)
  | translate => (3, some 3)

/-- Whether a core function takes `n` arguments. -/
def takes (f : CoreFunction) (n : Nat) : Bool :=
  let (least, most) := f.arity
  least ≤ n && most.all (n ≤ ·)

end CoreFunction

/-! ## §D  Operators -/

/-- **Operator** is an operator of the expression language. -/
inductive Operator where
  | sum
  | minus
  | multiply
  | divide
  | modulo
  | negate
  | equal
  | notEqual
  | less
  | lessOrEqual
  | greater
  | greaterOrEqual
  | and
  | or
  | union
deriving DecidableEq, Repr, Inhabited

namespace Operator

/-- The symbol of an operator. -/
def symbol : Operator → String
  | sum => "+"
  | minus => "-"
  | negate => "-"
  | multiply => "*"
  | divide => "div"
  | modulo => "mod"
  | equal => "="
  | notEqual => "!="
  | less => "<"
  | lessOrEqual => "<="
  | greater => ">"
  | greaterOrEqual => ">="
  | and => "and"
  | or => "or"
  | union => "|"

end Operator

end NodePath
