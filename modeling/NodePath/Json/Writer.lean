/-
# NodePath.Json.Writer — documents to text

* §A  Numbers: integers in full, doubles by `layout`.
* §B  Texts: only the quote, the backslash and the controls are escaped.
* §C  `write`, without any blank, and `writePretty`, one item a line.
-/
import NodePath.Json.Basic
import NodePath.Number.Layout

namespace NodePath.Json

/-! ## §A  Numbers -/

/-- Doubles are written without an exponent when their first digit stands between the fifth place behind
the point and the sixteenth before it; a whole one keeps its point. -/
def layout : Number.Layout where
  tie := .toEven
  positional k := -5 ≤ k && k ≤ 15
  wholeTail := ".0"
  exponentMark := "e+"
  nan := "null"
  infinity := "null"

/-! ## §B  Texts -/

/-- One character of a text. -/
def writeChar (c : Char) : String :=
  if c == '"' then "\\\""
  else if c == '\\' then "\\\\"
  else if c == '\x08' then "\\b"
  else if c == '\x0c' then "\\f"
  else if c == '\n' then "\\n"
  else if c == '\r' then "\\r"
  else if c == '\t' then "\\t"
  else if c.toNat < 0x20 then
    "\\u00" ++ (if c.toNat < 0x10 then "0" else "1") ++ String.ofList (Nat.toDigits 16 (c.toNat % 16))
  else c.toString

/-- A text between its quotes. -/
def writeText (s : String) : String := s.toList.foldl (fun out c => out ++ writeChar c) "\"" ++ "\""

/-! ## §C  Documents -/

mutual
/-- **write** is the document as text without any blank. -/
def write : Json → String
  | null => "null"
  | bool b => if b then "true" else "false"
  | int i => toString i
  | double x => layout.render x
  | text s => writeText s
  | array items => "[" ++ writeItems items ++ "]"
  | object members => "\x7b" ++ writeMembers members ++ "\x7d"
termination_by structural j => j
/-- Elements, divided by commas. -/
def writeItems : List Json → String
  | [] => ""
  | j :: js =>
    match js with
    | [] => j.write
    | _ :: _ => j.write ++ "," ++ writeItems js
termination_by structural js => js
/-- Members, divided by commas. -/
def writeMembers : List (String × Json) → String
  | [] => ""
  | (k, j) :: ms =>
    match ms with
    | [] => writeText k ++ ":" ++ j.write
    | _ :: _ => writeText k ++ ":" ++ j.write ++ "," ++ writeMembers ms
termination_by structural ms => ms
end

/-- The start of a line at a level of nesting. -/
def newLine (level : Nat) : String := "\n" ++ String.ofList (List.replicate (2 * level) ' ')

mutual
/-- The document with each item on a line of its own; `level` is how deep it is nested. -/
def writePrettyAt (level : Nat) : Json → String
  | array [] => "[]"
  | array items => "[" ++ writePrettyItems (level + 1) items ++ newLine level ++ "]"
  | object [] => "\x7b\x7d"
  | object members => "\x7b" ++ writePrettyMembers (level + 1) members ++ newLine level ++ "\x7d"
  | null => "null"
  | bool b => if b then "true" else "false"
  | int i => toString i
  | double x => layout.render x
  | text s => writeText s
termination_by structural j => j
/-- Elements, each on its line. -/
def writePrettyItems (level : Nat) : List Json → String
  | [] => ""
  | j :: js =>
    match js with
    | [] => newLine level ++ writePrettyAt level j
    | _ :: _ => newLine level ++ writePrettyAt level j ++ "," ++ writePrettyItems level js
termination_by structural js => js
/-- Members, each on its line. -/
def writePrettyMembers (level : Nat) : List (String × Json) → String
  | [] => ""
  | (k, j) :: ms =>
    match ms with
    | [] => newLine level ++ writeText k ++ ": " ++ writePrettyAt level j
    | _ :: _ =>
      newLine level ++ writeText k ++ ": " ++ writePrettyAt level j ++ "," ++ writePrettyMembers level ms
termination_by structural ms => ms
end

/-- **writePretty** is the document as text with two blanks a level. -/
def writePretty (j : Json) : String := j.writePrettyAt 0

end NodePath.Json
