/-
# NodePath.Cli.Run — the command line

Evaluates a path against a document and prints what it selects.

* §A  `Report`, and failures.
* §B  What the path is evaluated in.
* §C  What is printed.
* §D  `run`.
-/
import NodePath.Cli.Options
import NodePath.Context.Read
import NodePath.Function.Stock

namespace NodePath.Cli

/-! ## §A  Reports -/

/-- **Report** is the exit code and what is printed to the two outputs. -/
structure Report where
  code : Nat
  output : String
  complaint : String
deriving Repr, Inhabited

/-- The report of arguments that are not understood. -/
def usage : Report := ⟨2, "", "usage: opq [OPTIONS] <PATH>\n"⟩

/-- The report of a failure. -/
def failure (message : String) : Report := ⟨1, "", message ++ "\n"⟩

/-- Reading a file by its path. What fails is said in words. -/
abbrev Files := String → Except String String

/-- A part of the run, which may fail with a message. -/
abbrev Attempt := Except String

/-! ## §B  Preparation -/

/-- The document that the options name. -/
def documentOf (read : Files) (o : Options) : Attempt Json := do
  let text ←
    match o.file, o.json with
    | some path, _ => (read path).mapError fun e => "Cannot read " ++ path ++ ": " ++ e
    | none, some json => pure json
    | none, none => pure "\x7b\x7d"
  match Json.read? text with
  | some j => pure j
  | none => throw "Invalid JSON: the text is no document"

/-- The configuration of the engine. -/
def configOf (read : Files) (o : Options) : Attempt EngineConfig :=
  match o.config with
  | none => pure {}
  | some path =>
    let complaint (e : String) : String := "Invalid config " ++ path ++ ": " ++ e
    match read path with
    | .error e => throw (complaint e)
    | .ok text =>
      match (Json.readWritten? text).bind EngineConfig.ofJson? with
      | some config => pure config
      | none => throw (complaint "the text is no configuration")

/-- The two sides of the first equals sign. -/
def pairOf (what text : String) : Attempt (String × String) :=
  let cs := text.toList
  match cs.dropWhile (· != '=') with
  | [] => throw ("Invalid " ++ what ++ " '" ++ text ++ "', expected NAME=VALUE")
  | _ :: value => pure (String.ofList (cs.takeWhile (· != '=')), String.ofList value)

/-- The value of a variable: a document, or a text if it is none. -/
def variableValue (text : String) : Datum :=
  match Json.read? text with
  | some j => .ofJson j
  | none => .text text

/-- An operation as a part of the run, from a store to a store. -/
def step {α : Type} (m : Eval α) (st : Store) : Attempt (α × Store) :=
  match m.runOn st with
  | (.ok a, st) => pure (a, st)
  | (.error e, _) => throw e.message

/-- The context of the run. -/
def contextOf (read : Files) (o : Options) : Attempt (Context × Store) := do
  let document ← documentOf read o
  let config ← configOf read o
  let (root, st) ← step (Pointer.make (.plain "") (.json document)) (.ofEngine (.new config))
  let (c, st) ← step (Context.atRoot root) st
  let namespaces ← o.namespaces.mapM (pairOf "namespace")
  let c := namespaces.foldl (fun c n => c.registerNamespace n.1 n.2) (c.setLenient o.lenient)
  let assignments ← o.assignments.mapM (pairOf "variable")
  let (_, st) ← step (assignments.forM fun v => c.declare v.1 (variableValue v.2)) st
  pure (c, st)

/-! ## §C  Results -/

/-- Documents with each one kept only where it stands first, if that is wanted. -/
def chosen (o : Options) (js : List Json) : List Json := if o.unique then Extension.distinct js else js

/-- The paths of the nodes, one a line. -/
def pointerLines (o : Options) (paths : List String) : String :=
  let kept := (chosen o (paths.map Json.text)).filterMap Json.toText?
  String.join ((if o.first then kept.take 1 else kept).map (· ++ "\n"))

/-- The values as one document. -/
def valueText (o : Options) (js : List Json) : String :=
  let kept := chosen o js
  (if o.first then kept.head?.getD .null else .array kept).writePretty ++ "\n"

/-- What is printed of the path. -/
def resultOf (o : Options) (c : Context) (path : String) : Eval String := do
  if o.pointers then
    let ps ← Context.allOf (← c.iteratePointers stockHost path)
    let st ← get
    pure (pointerLines o (ps.map (·.pathText st)))
  else
    let ds ← Context.allOf (← c.iterate stockHost path)
    let st ← get
    pure (valueText o (ds.map (·.toJson st)))

/-! ## §D  The run -/

/-- What the options ask for. -/
def perform (read : Files) (o : Options) : Attempt String := do
  let (c, st) ← contextOf read o
  let (output, _) ← step (resultOf o c (o.path.getD "")) st
  pure output

/-- **run** is the report of a command line. -/
def run (read : Files) (arguments : List String) : Report :=
  match Options.ofArguments? arguments with
  | none => usage
  | some o =>
    match perform read o with
    | .ok output => ⟨0, output, ""⟩
    | .error message => failure message

end NodePath.Cli
