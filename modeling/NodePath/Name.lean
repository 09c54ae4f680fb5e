/-
# NodePath.Name — qualified names

A **QName** is a local name with an optional qualifier in front of it. Two names are the same when
their written forms are: the qualifier `a` with the local name `b` is the plain local name `a:b`.
-/

namespace NodePath

/-- **QName** is an optional qualifier and a local name. -/
structure QName where
  qualifier : Option String
  localName : String
deriving Inhabited, Repr, DecidableEq

namespace QName

/-- A name from its two parts; an empty qualifier is none. -/
def make (qualifier : Option String) (localName : String) : QName :=
  ⟨qualifier.filter (!·.isEmpty), localName⟩

/-- A name without a qualifier. -/
def plain (localName : String) : QName := ⟨none, localName⟩

/-- The characters before the first colon and those behind it, if there is one. -/
def splitColon : List Char → Option (List Char × List Char)
  | [] => none
  | ':' :: cs => some ([], cs)
  | c :: cs => (splitColon cs).map fun p => (c :: p.1, p.2)

/-- The name that a written form stands for: its first colon divides it. -/
def ofWritten (written : String) : QName :=
  match splitColon written.toList with
  | some (q, l) => make (some (String.ofList q)) (String.ofList l)
  | none => plain written

/-- **written** is the name with its qualifier and a colon in front. -/
def written (n : QName) : String :=
  match n.qualifier with
  | some q => q ++ ":" ++ n.localName
  | none => n.localName

/-- Names are compared by their written forms. -/
instance : BEq QName where
  beq a b := a.written == b.written

end QName

end NodePath
