/-
# NodePath.Function.Library — extension functions by name

An extension function is found by the qualifier and the name of its call and by the number of arguments.
A **FunctionLibrary** is a list of entries in the order of their registration; of those that fit a call the
first is taken. What a function does is either one of the **Builtin**s or known to the host program under a
handle.
-/
import NodePath.Name

namespace NodePath

/-- **Builtin** is an extension function that every context has. -/
inductive Builtin where
  | lowerCase
  | upperCase
  | distinctValues
  | orDefault
  | fromJson
deriving DecidableEq, Repr, Inhabited

/-- What a function does. -/
inductive Implementation where
  | builtin (b : Builtin)
  /-- A function of the host program, by its handle there. -/
  | hosted (handle : String)
deriving DecidableEq, Repr, Inhabited

/-- **FunctionEntry** is a function with the calls that it is for. -/
structure FunctionEntry where
  qualifier : Option String
  name : String
  least : Nat
  most : Nat
  implementation : Implementation
deriving DecidableEq, Repr, Inhabited

/-- Whether an entry is for a call. -/
def FunctionEntry.fits (e : FunctionEntry) (name : QName) (arity : Nat) : Bool :=
  e.qualifier == name.qualifier && e.name == name.localName && e.least ≤ arity && arity ≤ e.most

/-- **FunctionLibrary** holds entries in the order of their registration. -/
abbrev FunctionLibrary := List FunctionEntry

/-- The function for a call. -/
def FunctionLibrary.find? (l : FunctionLibrary) (name : QName) (arity : Nat) : Option Implementation :=
  (List.find? (FunctionEntry.fits · name arity) l).map (·.implementation)

/-- An entry for a function without a qualifier that takes `n` arguments. -/
def Builtin.entry (b : Builtin) (name : String) (n : Nat) : FunctionEntry := ⟨none, name, n, n, .builtin b⟩

/-- The functions that every context has. -/
def builtinLibrary : FunctionLibrary :=
  [Builtin.lowerCase.entry "lower-case" 1, Builtin.upperCase.entry "upper-case" 1,
    Builtin.distinctValues.entry "distinct-values" 1, Builtin.orDefault.entry "or-default" 2,
    Builtin.fromJson.entry "from-json" 1]

end NodePath
