/-
# NodePath.Shown — values as error messages quote them

A message that complains about a value shows it with its kind, so that the number one and the text one are
told apart.
-/
import NodePath.Json.Writer
import NodePath.Pointer.Basic
import NodePath.Text.Quoted

namespace NodePath

/-- A shown number keeps its point; it has an exponent from the seventeenth place before the point on and
from the fifth behind it. -/
def Datum.shownLayout : Number.Layout where
  tie := .away
  positional k := -4 ≤ k && k ≤ 15
  wholeTail := ".0"
  exponentMark := "e"
  nan := "NaN"
  infinity := "inf"

/-- A word with something in parentheses behind it. -/
def tagged (word inside : String) : String := word ++ "(" ++ inside ++ ")"

/-- A truth value in letters. -/
def shownBool (b : Bool) : String := if b then "true" else "false"

mutual
/-- A document with the kind of each part. -/
def Json.shown : Json → String
  | .null => "Null"
  | .bool b => tagged "Bool" (shownBool b)
  | .int i => tagged "Number" (toString i)
  | .double x => tagged "Number" (Json.layout.render x)
  | .text s => tagged "String" (Text.quoted s)
  | .array items => "Array [" ++ Json.shownItems items ++ "]"
  | .object members => "Object \x7b" ++ Json.shownMembers members ++ "\x7d"
termination_by structural j => j
/-- Elements, divided by commas. -/
def Json.shownItems : List Json → String
  | [] => ""
  | j :: js =>
    match js with
    | [] => j.shown
    | _ :: _ => j.shown ++ ", " ++ Json.shownItems js
termination_by structural js => js
/-- Members, divided by commas. -/
def Json.shownMembers : List (String × Json) → String
  | [] => ""
  | (k, j) :: ms =>
    match ms with
    | [] => Text.quoted k ++ ": " ++ j.shown
    | _ :: _ => Text.quoted k ++ ": " ++ j.shown ++ ", " ++ Json.shownMembers ms
termination_by structural ms => ms
end

/-- **Datum.shown** is a value with its kind. -/
def Datum.shown : Datum → String
  | .null => "Null"
  | .boolean b => tagged "Boolean" (shownBool b)
  | .number x => tagged "Number" (Datum.shownLayout.render x)
  | .text s => tagged "String" (Text.quoted s)
  | .object j => tagged "Object" j.shown
  | .pointer _ => "Pointer"

end NodePath
