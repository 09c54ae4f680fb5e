/-
# NodePath.Evaluation.CoreFunction — the values of core functions

* §A  Nodes: counting them, looking them up, their names.
* §B  Texts.
* §C  Numbers.
* §D  Language.
* §E  The dispatch, with one equation for each function and number of arguments.
-/
import NodePath.Evaluation.Basic
import NodePath.Text.Slice

namespace NodePath.Evaluator

/-! ## §A  Nodes -/

/-- The number of nodes or members of a value. -/
def countOf (ev : Evaluator) : Value → Eval Nat
  | .nodes c => do pure (← ev.deliverAll c).length
  | .datum (.pointer p) => do
    let st ← get
    match p.openedValue st with
    | .object (.array items) => pure items.length
    | _ => pure (if p.isOpenedActual st then 1 else 0)
  | .datum (.object (.array items)) => pure items.length
  | .datum .null => pure 0
  | .datum _ => pure 1

/-- The nodes whose key has a value; a node-set asks for the text of each of its nodes. -/
def keyed (ev : Evaluator) (key : String) : Value → Eval (List Pointer)
  | .nodes c =>
    ev.on c fun m => do
      let found ← Walk.collectAll do
        match ← m.deliver with
        | none => pure none
        | some p =>
          let text := (Datum.pointer p).toText (← Walk.store)
          pure (some (← ev.nodesByKey key (.text text)))
      pure found.flatten
  | .datum d => ev.nodesByKey key d

/-- The node that a function is asked about: the first one of its argument, or the context node. -/
def subject (ev : Evaluator) (m : Motion) : List Expr → Walk (Option Pointer)
  | [] => m.current
  | e :: _ => do
    match ← ev.operand m e with
    | .pointer p => pure (some p)
    | _ => pure none

/-- A text that a node has; nothing without a node. -/
def nodeText (ev : Evaluator) (m : Motion) (args : List Expr) (f : Pointer → Store → String) :
    Walk Value := do
  let p? ← ev.subject m args
  let st ← Walk.store
  pure (.text ((p?.map (f · st)).getD ""))

/-- What a function converts: its argument, or the context node. -/
def subjectValue (ev : Evaluator) (m : Motion) : List Expr → Walk Datum
  | [] => do pure (Call.ofNode (← m.current))
  | e :: _ => ev.operand m e

/-! ## §B  Texts -/

/-- The characters of an operand. -/
def chars (ev : Evaluator) (m : Motion) (e : Expr) : Walk (List Char) := do pure (← ev.text m e).toList

/-- A test of two texts. -/
def testTexts (ev : Evaluator) (m : Motion) (e₁ e₂ : Expr) (test : List Char → List Char → Bool) :
    Walk Value := do
  let s ← ev.chars m e₁
  let t ← ev.chars m e₂
  pure (.boolean (test s t))

/-- A part of a text that another text decides. -/
def partOf (ev : Evaluator) (m : Motion) (e₁ e₂ : Expr) (part : List Char → List Char → List Char) :
    Walk Value := do
  let s ← ev.chars m e₁
  let t ← ev.chars m e₂
  pure (.text (String.ofList (part t s)))

/-- The operands as one text. -/
def concat (ev : Evaluator) (m : Motion) (args : List Expr) : Walk Value := do
  pure (.text (String.join (← args.mapM (ev.text m))))

/-- A part of a text, if it is one. -/
def sliced : Option (List Char) → Walk Value
  | some part => pure (.text (String.ofList part))
  | none => throw (.evaluation .noSlice)

/-- A window of a text. -/
def substring (ev : Evaluator) (m : Motion) (e position : Expr) (length : Option Expr) : Walk Value := do
  let s ← ev.chars m e
  let x ← ev.double m position
  let n ← length.mapM (ev.double m)
  sliced (Text.substring? s x n)

/-- A text with characters replaced. -/
def translate (ev : Evaluator) (m : Motion) (e old new : Expr) : Walk Value := do
  let s ← ev.chars m e
  let old ← ev.chars m old
  let new ← ev.chars m new
  pure (.text (String.ofList (Text.translate old new s)))

/-! ## §C  Numbers -/

/-- The sum of some values, each as a number in arithmetic. The sum of none is the negative zero. -/
def total (st : Store) (ds : List Datum) : Float := ds.foldl (fun n d => n + d.toDouble st) (-0.0)

/-- The values that are summed up: those of the nodes, or the elements of an array. -/
def summands (ev : Evaluator) : Value → Eval (List Datum)
  | .nodes c => do
    let ps ← ev.deliverAll c
    let st ← get
    pure (ps.map (·.openedValue st))
  | .datum (.pointer p) => do
    match p.openedValue (← get) with
    | .object (.array items) => pure (items.map Datum.ofJson)
    | _ => throw (.evaluation .notSummable)
  | .datum (.object (.array items)) => pure (items.map Datum.ofJson)
  | .datum _ => throw (.evaluation .notSummable)

/-- The symbols of the decimal format that an operand names, or the usual ones. -/
def symbols (ev : Evaluator) (m : Motion) : Option Expr → Walk DecimalSymbols
  | none => pure ev.context.usualFormat
  | some e => do
    let name := (← ev.plain m e).toText (← Walk.store)
    match ev.context.decimalFormat? name with
    | some s => pure s
    | none => throw (.evaluation (.unknownFormat name))

/-- A number printed by a pattern. -/
def formatNumber (ev : Evaluator) (m : Motion) (e pattern : Expr) (format : Option Expr) :
    Walk Value := do
  let x ← ev.double m e
  let pattern ← ev.text m pattern
  let symbols ← ev.symbols m format
  match NodePath.formatNumber x pattern symbols with
  | .ok s => pure (.text s)
  | .error fault => throw (.evaluation fault)

/-! ## §D  Language -/

/-- The language of a node, or else that of the locale. -/
def languageOf (ev : Evaluator) (p : Pointer) (st : Store) : String :=
  (p.language st).getD (String.ofList (ev.context.locale.toList.map fun c => if c == '_' then '-' else c))

/-- Whether the context node is in a language or in a variety of it, whatever the case of the letters. -/
def lang (ev : Evaluator) (m : Motion) (e : Expr) : Walk Value := do
  let wanted := Text.upper (← ev.chars m e)
  match ← m.current with
  | none => pure (.boolean false)
  | some p =>
    let language := Text.upper (ev.languageOf p (← Walk.store)).toList
    pure (.boolean (wanted.isPrefixOf language))

/-! ## §E  The dispatch -/

/-- The value of a core function that is called with a number of arguments that it takes. -/
def coreValue (ev : Evaluator) (m : Motion) (f : CoreFunction) (args : List Expr) : Walk Value := do
  match f, args with
  | .last, _ => pure (.number (Number.ofNat (← m.listSet).length))
  | .position, _ => pure (.number (Number.ofNat (← Walk.frame).position))
  | .count, [e] => pure (.number (Number.ofNat (← ev.countOf (← ev.lazy m e))))
  | .id, [e] => do
    pure (.datum (Call.ofNode (← ev.pointerById (← ev.text m e))))
  | .key, [e₁, e₂] => do
    let key := (← ev.plain m e₁).toText (← Walk.store)
    let ps ← ev.keyed key (← ev.lazy m e₂)
    pure (.nodes (.ofNodes (distinct ps) .unordered))
  | .localName, args => ev.nodeText m args fun p st => (p.name st).localName
  | .name, args => ev.nodeText m args fun p st => (p.name st).written
  | .namespaceUri, args => ev.nodeText m args fun p st => (p.namespaceUri st).getD ""
  | .string, args => pure (.text ((← ev.subjectValue m args).toText (← Walk.store)))
  | .number, args => pure (.number ((← ev.subjectValue m args).toNumber (← Walk.store)))
  | .stringLength, args =>
    pure (.number (Number.ofNat ((← ev.subjectValue m args).toText (← Walk.store)).length))
  | .concat, args => ev.concat m args
  | .startsWith, [s, t] => ev.testTexts m s t fun s t => t.isPrefixOf s
  | .endsWith, [s, t] => ev.testTexts m s t fun s t => t.isSuffixOf s
  | .contains, [s, t] => ev.testTexts m s t fun s t => (Text.cut? t s).isSome
  | .substringBefore, [s, t] => ev.partOf m s t Text.before
  | .substringAfter, [s, t] => ev.partOf m s t Text.behind
  | .substring, [e, position] => ev.substring m e position none
  | .substring, [e, position, length] => ev.substring m e position (some length)
  | .normalizeSpace, [e] =>
    pure (.text (String.ofList ([' '].intercalate (Text.words (← ev.chars m e)))))
  | .translate, [e, old, new] => ev.translate m e old new
  | .boolean, [e] => pure (.boolean (← ev.truth m e))
  | .not, [e] => pure (.boolean !(← ev.truth m e))
  | .true, _ => pure (.boolean true)
  | .false, _ => pure (.boolean false)
  | .null, _ => pure .null
  | .lang, [e] => ev.lang m e
  | .sum, [e] => do
    let ds ← ev.summands (← ev.lazy m e)
    pure (.number (total (← Walk.store) ds))
  | .floor, [e] => pure (.number (Number.floor (← ev.double m e)))
  | .ceiling, [e] => pure (.number (Number.ceiling (← ev.double m e)))
  | .round, [e] => pure (.number (Number.roundHalfUp (← ev.double m e)))
  | .formatNumber, [e, pattern] => ev.formatNumber m e pattern none
  | .formatNumber, [e, pattern, format] => ev.formatNumber m e pattern (some format)
  | f, _ => throw (.invalidArguments f.spelling)

/-- **callCore** is the value of a call of a core function. -/
def callCore (ev : Evaluator) (m : Motion) (f : CoreFunction) (args : List Expr) : Walk Value :=
  if f.takes args.length then ev.coreValue m f args else throw (.invalidArguments f.spelling)

end NodePath.Evaluator
