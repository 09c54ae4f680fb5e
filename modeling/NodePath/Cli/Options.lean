/-
# NodePath.Cli.Options — the arguments of the command line

One argument is the path; the others are options. An option that takes a value has it behind an equals sign or
in the next argument, which then must not look like an option. A lone `--` ends the options.

* §A  `Options`.
* §B  One option.
* §C  `Options.ofArguments?`. Whatever is not understood is a usage error, without saying which.
-/

namespace NodePath.Cli

/-! ## §A  Options -/

/-- **Options** is what the arguments say. -/
structure Options where
  path : Option String := none
  file : Option String := none
  json : Option String := none
  config : Option String := none
  namespaces : List String := []
  assignments : List String := []
  pointers : Bool := false
  lenient : Bool := false
  first : Bool := false
  unique : Bool := false
  verbosity : Nat := 0
deriving Repr, Inhabited

/-! ## §B  One option -/

/-- Sets what may be set once. -/
def once (old : Option String) (new : String) : Option (Option String) :=
  match old with
  | none => some (some new)
  | some _ => none

/-- Switches on what may be switched on once. -/
def switch (old : Bool) : Option Bool := if old then none else some true

/-- Whether an option takes a value, if there is an option of that name. -/
def takesValue? (name : String) : Option Bool :=
  if ["file", "json", "config", "ns", "var"].contains name then some true
  else if ["pointers", "lenient", "first", "unique", "verbose"].contains name then some false
  else none

namespace Options

/-- The options with one more that has a value. -/
def withValue? (o : Options) (name value : String) : Option Options :=
  match name with
  | "file" => (once o.file value).map fun file => { o with file }
  | "json" => (once o.json value).map fun json => { o with json }
  | "config" => (once o.config value).map fun config => { o with config }
  | "ns" => some { o with namespaces := o.namespaces ++ [value] }
  | "var" => some { o with assignments := o.assignments ++ [value] }
  | _ => none

/-- The options with one more that has no value. -/
def withSwitch? (o : Options) (name : String) : Option Options :=
  match name with
  | "pointers" => (switch o.pointers).map fun pointers => { o with pointers }
  | "lenient" => (switch o.lenient).map fun lenient => { o with lenient }
  | "first" => (switch o.first).map fun first => { o with first }
  | "unique" => (switch o.unique).map fun unique => { o with unique }
  | "verbose" => some { o with verbosity := o.verbosity + 1 }
  | _ => none

/-- The options with one more argument that is no option. -/
def withPath? (o : Options) (path : String) : Option Options :=
  (once o.path path).map fun path => { o with path }

/-- The options with some letters behind a single dash, each of which is an option. -/
def withLetters? (o : Options) (letters : List Char) : Option Options :=
  letters.foldlM (fun o c => if c == 'v' then o.withSwitch? "verbose" else none) o

end Options

/-! ## §C  Arguments -/

/-- **Argument** is an argument by what it looks like. -/
inductive Argument where
  /-- The end of the options. -/
  | finish
  | long (name : String) (value : Option String)
  | letters (cs : List Char)
  | plain (s : String)
deriving Repr, Inhabited

/-- A long option, divided at its first equals sign. -/
def longArgument (cs : List Char) : Argument :=
  let name := String.ofList (cs.takeWhile (· != '='))
  match cs.dropWhile (· != '=') with
  | [] => .long name none
  | _ :: value => .long name (some (String.ofList value))

/-- What an argument looks like. -/
def Argument.ofText (s : String) : Argument :=
  match s.toList with
  | ['-'] => .plain s
  | ['-', '-'] => .finish
  | '-' :: '-' :: cs => longArgument cs
  | '-' :: cs => .letters cs
  | _ => .plain s

/-- An argument that can be the value of the option before it. -/
def valueText? (s : String) : Option String :=
  match Argument.ofText s with
  | .plain s => some s
  | _ => none

namespace Options

/-- The options with the arguments of a command line, read from the first one on. -/
def withArguments? (o : Options) : List String → Option Options
  | [] => some o
  | a :: rest =>
    match Argument.ofText a with
    | .finish => rest.foldlM withPath? o
    | .plain s => do (← o.withPath? s).withArguments? rest
    | .letters cs => do (← o.withLetters? cs).withArguments? rest
    | .long name value => do
      match ← takesValue? name, value with
      | true, some v => (← o.withValue? name v).withArguments? rest
      | true, none =>
        match rest with
        | [] => none
        | v :: rest => (← o.withValue? name (← valueText? v)).withArguments? rest
      | false, some _ => none
      | false, none => (← o.withSwitch? name).withArguments? rest

/-- **ofArguments?** is what a command line says: there has to be a path, and not two documents. -/
def ofArguments? (arguments : List String) : Option Options := do
  let o ← withArguments? {} arguments
  if o.path.isNone || (o.file.isSome && o.json.isSome) then none else some o

/-- The files that the options name. -/
def files (o : Options) : List String := o.file.toList ++ o.config.toList

end Options

end NodePath.Cli
