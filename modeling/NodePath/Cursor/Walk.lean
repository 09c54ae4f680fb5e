/-
# NodePath.Cursor.Walk — operations on a cursor

A **Walk** is an operation that moves a cursor. It may fail, and it may change the store; when it fails, the
cursor stays where the failure found it.

* §A  `Walk`.
* §B  Working on the stages before, or on a cursor of its own.
* §C  Repetition, which ends at a limit that no graph in memory reaches.
-/
import NodePath.Cursor.Basic

namespace NodePath

/-! ## §A  Walks -/

/-- **Walk** is an operation on a cursor. -/
abbrev Walk := ExceptT EvalError (StateT Cursor (StateM Store))

namespace Walk

/-- An operation that does not look at the cursor. -/
def lift {α : Type} (m : Eval α) : Walk α :=
  ExceptT.mk fun c => do
    let r ← m.run
    pure (r, c)

/-- The store. -/
def store : Walk Store := lift get

/-- The cursor. -/
def cursor : Walk Cursor := ExceptT.mk fun c => pure (.ok c, c)

/-- The frame of the last stage. -/
def frame : Walk Frame := do pure (← cursor).frame

/-- Moves the cursor by a function. -/
def move (f : Cursor → Cursor) : Walk Unit := ExceptT.mk fun c => pure (.ok (), f c)

/-- Changes the frame of the last stage. -/
def modifyFrame (f : Frame → Frame) : Walk Unit := move fun c => { c with frame := f c.frame }

instance : MonadLift Eval Walk := ⟨lift⟩

/-- The answer of an operation, or the error as an answer. -/
def attempt {α : Type} (m : Walk α) : Walk (Except EvalError α) :=
  ExceptT.mk do
    let r ← m.run
    pure (.ok r)

/-- Answers, or fails, as a result says. -/
def ofExcept {α : Type} : Except EvalError α → Walk α
  | .ok a => pure a
  | .error e => throw e

/-! ## §B  Other cursors -/

/-- Runs an operation on another cursor and answers that cursor as well. -/
def onCursor {α : Type} (c : Cursor) (m : Walk α) : Eval (α × Cursor) :=
  ExceptT.mk do
    let (r, c) ← m.run.run c
    pure (r.map (·, c))

/-- Runs an operation on a cursor and a store. What it moved or changed before an error stays so. -/
def runOn {α : Type} (m : Walk α) (c : Cursor) (st : Store) : Except EvalError α × Cursor × Store :=
  let ((r, c), st) := (m.run.run c).run st
  (r, c, st)

/-- Runs an operation on another cursor, which is not needed afterwards. -/
def within {α : Type} (c : Cursor) (m : Walk α) : Eval α := do pure (← onCursor c m).1

/-- Runs an operation on the stages before the last one; without any, the answer is `absent`. -/
def inEarlier {α : Type} (absent : α) (m : Walk α) : Walk α :=
  ExceptT.mk fun c =>
    match c.earlier with
    | [] => pure (.ok absent, c)
    | f :: fs => do
      let (r, up) ← m.run.run ⟨f, fs⟩
      pure (r, ⟨c.frame, up.frame :: up.earlier⟩)

/-! ## §C  Repetition -/

/-- How often an operation is repeated at most: more often than a memory has room for nodes. -/
def limit : Nat := Nat.pow 2 62

/-- Repeats an operation until it answers, at most so many times. -/
def untilSome {α : Type} (m : Walk (Option α)) : Nat → Walk α
  | 0 => throw (.evaluation .exhausted)
  | times + 1 => do
    match ← m with
    | some a => pure a
    | none => untilSome m times

/-- What an operation answers until it answers nothing, at most so many times, behind `taken`, which is in
reverse. -/
def collect {α : Type} (m : Walk (Option α)) : Nat → List α → Walk (List α)
  | 0, _ => throw (.evaluation .exhausted)
  | times + 1, taken => do
    match ← m with
    | some a => collect m times (a :: taken)
    | none => pure taken.reverse

/-- **repeatUntil** repeats an operation until it answers. -/
def repeatUntil {α : Type} (m : Walk (Option α)) : Walk α := untilSome m limit

/-- **collectAll** is what an operation answers until it answers nothing. -/
def collectAll {α : Type} (m : Walk (Option α)) : Walk (List α) := collect m limit []

end Walk

end NodePath
