/-
# NodePath.Context.Shown — contexts as one line

The line that a log shows for a context: where it stands and the settings that decide what is read.
-/
import NodePath.Context.Basic
import NodePath.Shown

namespace NodePath.Context

/-- **shown** is the line for a context. -/
def shown (c : Context) (st : Store) : String :=
  "PathContext \x7b context_pointer: " ++ Text.quoted (c.contextPointer.pathText st)
    ++ ", lenient: " ++ shownBool c.isLenient ++ ", locale: " ++ Text.quoted c.locale
    ++ ", has_parent: " ++ shownBool (!c.outer.isEmpty) ++ " \x7d"

end NodePath.Context
