/-
# NodePath.Proofs.AgreedEvaluation — expressions are evaluated in agreement

Two contexts that know the same are asked the same by an expression. So expressions come to the same in both: whatever
part of an evaluation does not ask the context is the same in both anyway. What is left is the functions of the host
program, which are given the context itself. They have to be told to agree.

* §A  `Call.Pulls`, the functions of every context, and the stock.
* §B  `Setting.Agree` and `Evaluator.Agree`.
* §C  Operands and calls.
* §D  Operations.
* §E  Paths.
* §F  Core functions.
* §G  One level more.
-/
import NodePath.Evaluation.Expr
import NodePath.Function.Stock
import NodePath.Proofs.AgreedMotion

namespace NodePath

variable {r : Regime}

/-! ## §A  Calls -/

/-- **Pulls** says that two calls pull the same nodes. -/
structure Call.Pulls (r : Regime) (a b : Call) : Prop where
  first : ∀ c, EvalAgree r (a.first c) (b.first c)
  nodes : ∀ c, EvalAgree r (a.nodes c) (b.nodes c)

namespace Call.Pulls

variable {a b : Call}

theorem collapse (h : a.Pulls r b) (v : Value) : EvalAgree r (a.collapse v) (b.collapse v) := by
  cases v with
  | datum d => exact .pure d
  | nodes c => exact (h.first c).bind fun _ => .pure _

theorem text (h : a.Pulls r b) (v : Value) : EvalAgree r (a.text v) (b.text v) :=
  (h.collapse v).bind fun _ => .get_bind fun _ _ => .pure _

theorem glance (h : a.Pulls r b) (v : Value) : EvalAgree r (a.glance v) (b.glance v) := by
  cases v with
  | datum d => exact .pure _
  | nodes c => exact .tryCatch ((h.first c).bind fun _ => .pure _) fun _ _ => .pure _

end Call.Pulls

/-- **The functions of every context** go by what their calls pull. -/
theorem Builtin.agree {a b : Call} (h : a.Pulls r b) (f : Builtin) (vs : List Value) :
    EvalAgree r (f.action a vs) (f.action b vs) := by
  have hcase : ∀ change, EvalAgree r (Extension.onText change a vs) (Extension.onText change b vs) := fun _ =>
    (h.text _).bind fun _ => .pure _
  cases f with
  | lowerCase => exact hcase _
  | upperCase => exact hcase _
  | distinctValues =>
    refine EvalAgree.bind ?_ fun _ => .pure _
    cases Call.argument vs 0 with
    | nodes c => exact (h.nodes c).bind fun _ => .get_bind fun _ _ => .pure _
    | datum d => cases d <;> exact .get_bind fun _ _ => .pure _
  | orDefault => exact (h.collapse _).bind fun _ => .get_bind fun _ _ => .pure _
  | fromJson =>
    refine (h.text _).bind fun s => ?_
    cases Json.read? s with
    | none => exact .throw (r.usual rfl)
    | some j => exact .pure _

/-- **The stock** goes by what its calls pull, by their node and by its position, but for two functions. -/
theorem Stock.agree {a b : Call} (h : a.Pulls r b) (hnode : b.node = a.node) (hposition : b.position = a.position)
    {handle : String} (hlenient : handle ≠ "lenient") (heval : handle ≠ "eval") (vs : List Value) :
    EvalAgree r (stockHost handle a vs) (stockHost handle b vs) := by
  have honFirst : ∀ usual f, EvalAgree r (Stock.onFirst usual f a vs) (Stock.onFirst usual f b vs) := fun _ _ =>
    (h.glance _).bind fun _ => .get_bind fun _ _ => .pure _
  show EvalAgree r (Stock.action handle a vs) (Stock.action handle b vs)
  unfold Stock.action
  split
  · exact honFirst _ _
  · exact .pure _
  · dsimp only
    rw [hposition]
    exact .pure _
  · refine .get_bind fun _ _ => ?_
    rw [hnode]
    exact .pure _
  · exact .pure _
  · exact honFirst _ _
  · exact honFirst _ _
  · exact honFirst _ _
  · exact honFirst _ _
  · exact .pure _
  · exact absurd rfl hlenient
  · exact absurd rfl heval
  · exact .throw (r.usual rfl)
  · exact .throw (r.usual rfl)
  · exact .pure _

/-! ## §B  Evaluators -/

/-- **Agree** says that two settings are of contexts that know the same, and find the same nodes for texts when these
are made lenient. -/
structure Setting.Agree (r : Regime) (s t : Setting) : Prop where
  context : s.context.Agree r.good t.context
  pointerIn : ∀ text, EvalAgree r (s.pointerIn (s.context.setLenient true) text)
    (t.pointerIn (t.context.setLenient true) text)

/-- **Agree** says that two evaluators find the same values. -/
structure Evaluator.Agree (r : Regime) (ev ev' : Evaluator) : Prop where
  setting : ev.setting.Agree r ev'.setting
  surroundings : ev.surroundings.Agree r ev'.surroundings
  lazy : ∀ {m n}, Motion.Agree r m n → ∀ e, WalkAgree r (ev.lazy m e) (ev'.lazy n e)
  value : ∀ {m n}, Motion.Agree r m n → ∀ e, WalkAgree r (ev.value m e) (ev'.value n e)
  hosted : ∀ handle node position vs, EvalAgree r (ev.setting.host handle (ev.callAt node position) vs)
    (ev'.setting.host handle (ev'.callAt node position) vs)

/-- Calls from evaluators that move cursors in surroundings that agree. -/
theorem Evaluator.pulls_callAt {ev ev' : Evaluator} (hs : ev.surroundings.Agree r ev'.surroundings)
    (node : Option Pointer) (position : Nat) : (ev.callAt node position).Pulls r (ev'.callAt node position) where
  first c := (WalkAgree.moving hs fun hmn => hmn.first).within c
  nodes c := (WalkAgree.moving hs fun hmn => hmn.nodeSet).within c

namespace Evaluator.Agree

variable {ev ev' : Evaluator} {m n : Motion}

theorem context (h : ev.Agree r ev') : ev.context.Agree r.good ev'.context := h.setting.context

/-! ## §C  Operands and calls -/

theorem on (h : ev.Agree r ev') {α : Type} (c : Cursor) {f g : Motion → Walk α}
    (hfg : ∀ {m n}, Motion.Agree r m n → WalkAgree r (f m) (g n)) : EvalAgree r (ev.on c f) (ev'.on c g) :=
  (WalkAgree.moving h.surroundings hfg).within c

theorem first (h : ev.Agree r ev') (c : Cursor) : EvalAgree r (ev.first c) (ev'.first c) :=
  h.on c fun hmn => hmn.first

theorem nodeSet (h : ev.Agree r ev') (c : Cursor) : EvalAgree r (ev.nodeSet c) (ev'.nodeSet c) :=
  h.on c fun hmn => hmn.nodeSet

theorem deliverAll (h : ev.Agree r ev') (c : Cursor) : EvalAgree r (ev.deliverAll c) (ev'.deliverAll c) :=
  h.on c fun hmn => hmn.deliverAll

theorem firstOf (h : ev.Agree r ev') (v : Value) : EvalAgree r (ev.firstOf v) (ev'.firstOf v) := by
  cases v with
  | datum d => exact .pure d
  | nodes c => exact (h.first c).bind fun _ => .pure _

theorem operand (h : ev.Agree r ev') (hm : m.Agree r n) (e : Expr) :
    WalkAgree r (ev.operand m e) (ev'.operand n e) := (h.lazy hm e).bind fun v => .monadLift (h.firstOf v)

theorem plain (h : ev.Agree r ev') (hm : m.Agree r n) (e : Expr) :
    WalkAgree r (ev.plain m e) (ev'.plain n e) := (h.value hm e).bind fun v => .monadLift (h.firstOf v)

theorem text (h : ev.Agree r ev') (hm : m.Agree r n) (e : Expr) : WalkAgree r (ev.text m e) (ev'.text n e) :=
  (h.operand hm e).bind fun _ => .store_bind fun _ _ => .pure _

theorem truth (h : ev.Agree r ev') (hm : m.Agree r n) (e : Expr) : WalkAgree r (ev.truth m e) (ev'.truth n e) :=
  (h.operand hm e).bind fun _ => .store_bind fun _ _ => .pure _

theorem double (h : ev.Agree r ev') (hm : m.Agree r n) (e : Expr) :
    WalkAgree r (ev.double m e) (ev'.double n e) :=
  (h.plain hm e).bind fun _ => .store_bind fun _ _ => .pure _

theorem callFunction (h : ev.Agree r ev') (hm : m.Agree r n) (name : QName) (args : List Expr) :
    WalkAgree r (ev.callFunction m name args) (ev'.callFunction n name args) := by
  simp only [Evaluator.callFunction, h.context.function?]
  split
  · exact .throw (r.usual rfl)
  · rename_i implementation _
    refine (WalkAgree.mapM (h.lazy hm) args).bind fun vs => ?_
    have hcall : ∀ node position, EvalAgree r (ev.action implementation (ev.callAt node position) vs)
        (ev'.action implementation (ev'.callAt node position) vs) := by
      intro node position
      cases implementation with
      | builtin b => exact b.agree (pulls_callAt h.surroundings node position) vs
      | hosted handle => exact h.hosted handle node position vs
    -- A call is put together from what the cursor is asked, and only then given to the function.
    have hspread : ∀ (ev : Evaluator) (m : Motion),
        (ev.call m >>= fun call => (liftM (ev.action implementation call vs) : Walk Value)) =
          m.current >>= fun node => Walk.frame >>= fun f =>
            (liftM (ev.action implementation (ev.callAt node f.position) vs) : Walk Value) := by
      intro ev m
      simp only [Evaluator.call, bind_assoc, pure_bind]
    rw [hspread, hspread]
    exact hm.current.bind fun node => .frame_bind fun f => .monadLift (hcall node f.position)

/-! ## §D  Operations -/

theorem anyIs (h : ev.Agree r ev') (hm : m.Agree r n) (decisive : Bool) (es : List Expr) :
    WalkAgree r (ev.anyIs m decisive es) (ev'.anyIs n decisive es) := by
  induction es with
  | nil => exact .pure false
  | cons e es ih => exact (h.truth hm e).bind fun _ => .ite (.pure true) ih

theorem sumOf (h : ev.Agree r ev') (hm : m.Agree r n) (total : Float) (es : List Expr) :
    WalkAgree r (ev.sumOf m total es) (ev'.sumOf n total es) := by
  induction es generalizing total with
  | nil => exact .pure total
  | cons e es ih => exact (h.double hm e).bind fun _ => ih _

theorem sideOf (h : ev.Agree r ev') (v : Value) : EvalAgree r (ev.sideOf v) (ev'.sideOf v) := by
  cases v with
  | nodes c => exact (h.nodeSet c).bind fun _ => .get_bind fun _ _ => .pure _
  | datum d => exact .get_bind fun _ _ => .pure _

theorem onBoth (h : ev.Agree r ev') (op : Operator) (left right : Value) :
    EvalAgree r (ev.onBoth op left right) (ev'.onBoth op left right) := by
  simp only [Evaluator.onBoth]
  split
  · exact (h.firstOf left).bind fun _ => (h.firstOf right).bind fun _ => .get_bind fun _ _ => .pure _
  · refine (h.sideOf left).bind fun _ => (h.sideOf right).bind fun _ => .get_bind fun _ _ => ?_
    split
    · exact .pure _
    · exact .throw (r.usual rfl)

theorem unionNodes (h : ev.Agree r ev') (hm : m.Agree r n) (e : Expr) :
    WalkAgree r (ev.unionNodes m e) (ev'.unionNodes n e) := by
  refine (h.lazy hm e).bind fun v => ?_
  cases v with
  | nodes c => exact .monadLift (h.nodeSet c)
  | datum d =>
    cases d with
    | pointer p => exact .pure _
    | null => exact .pure _
    | _ => exact .throw (r.usual rfl)

theorem unionOf (h : ev.Agree r ev') (hm : m.Agree r n) (es : List Expr) :
    WalkAgree r (ev.unionOf m es) (ev'.unionOf n es) :=
  (WalkAgree.mapM (h.unionNodes hm) es).bind fun _ => .store_bind fun _ _ =>
    (WalkAgree.ofExcept fun _ => r.sortDistinct).bind fun _ => .pure _

theorem operation (h : ev.Agree r ev') (hm : m.Agree r n) (op : Operator) (es : List Expr) :
    WalkAgree r (ev.operation m op es) (ev'.operation n op es) := by
  unfold Evaluator.operation
  split
  · exact (h.anyIs hm false es).bind fun _ => .pure _
  · exact (h.anyIs hm true es).bind fun _ => .pure _
  · exact (h.unionOf hm es).bind fun _ => .pure _
  · exact (h.double hm _).bind fun _ => .pure _
  · exact .throw (r.usual rfl)
  · exact (h.sumOf hm 0 es).bind fun _ => .pure _
  · exact (h.lazy hm _).bind fun left => (h.lazy hm _).bind fun right =>
      (WalkAgree.monadLift (h.onBoth _ left right)).bind fun _ => .pure _
  · exact .throw (r.usual rfl)

/-! ## §E  Paths -/

theorem startOf (h : ev.Agree r ev') (v : Value) : EvalAgree r (ev.startOf v) (ev'.startOf v) := by
  cases v with
  | nodes c =>
    refine (h.nodeSet c).bind fun _ => .get_bind fun _ _ => ?_
    split
    · exact .pure _
    · exact .throw (r.sortDistinct ‹_›)
  | datum d =>
    have hwrap : EvalAgree r (do let p ← Pointer.wrap d; pure (Cursor.startAt (← get) p))
        (do let p ← Pointer.wrap d; pure (Cursor.startAt (← get) p)) :=
      (EvalAgree.wrap d).bind fun _ => .get_bind fun _ _ => .pure _
    cases d with
    | null => exact .pure _
    | _ => exact hwrap

theorem locationPath (h : ev.Agree r ev') (hm : m.Agree r n) (absolute : Bool) (steps : List Step) :
    WalkAgree r (ev.locationPath m absolute steps) (ev'.locationPath n absolute steps) := by
  cases absolute with
  | true =>
    simp only [Evaluator.locationPath, if_true, h.context.rootPointer]
    exact (WalkAgree.pure _).bind fun _ => .store_bind fun _ _ => .pure _
  | false => exact hm.current.bind fun _ => .store_bind fun _ _ => .pure _

theorem filterPath (h : ev.Agree r ev') (hm : m.Agree r n) (head : Expr) (predicates : List Expr)
    (steps : List Step) :
    WalkAgree r (ev.filterPath m head predicates steps) (ev'.filterPath n head predicates steps) :=
  (h.lazy hm head).bind fun v => (WalkAgree.monadLift (h.startOf v)).bind fun _ => .pure _

theorem firstNode (h : ev.Agree r ev') {f g : Walk Cursor} (hfg : WalkAgree r f g) :
    WalkAgree r (ev.firstNode f) (ev'.firstNode g) :=
  hfg.bind fun c => (WalkAgree.monadLift (h.firstOf (.nodes c))).bind fun _ => .pure _

/-! ## §F  Core functions -/

theorem countOf (h : ev.Agree r ev') (v : Value) : EvalAgree r (ev.countOf v) (ev'.countOf v) := by
  cases v with
  | nodes c => exact (h.deliverAll c).bind fun _ => .pure _
  | datum d =>
    cases d with
    | pointer p =>
      refine .get_bind fun _ _ => ?_
      split
      · exact .pure _
      · exact .pure _
    | object j => cases j <;> exact .pure _
    | _ => exact .pure _

theorem askPointer (h : ev.Agree r ev') (handle : String) (ds : List Datum) :
    EvalAgree r (ev.askPointer handle ds) (ev'.askPointer handle ds) := by
  refine (h.hosted handle none 0 _).bind fun v => (h.firstOf v).bind fun d => ?_
  cases d <;> exact .pure _

theorem askPointers (h : ev.Agree r ev') (handle : String) (ds : List Datum) :
    EvalAgree r (ev.askPointers handle ds) (ev'.askPointers handle ds) := by
  refine (h.hosted handle none 0 _).bind fun v => ?_
  cases v with
  | nodes c => exact h.deliverAll c
  | datum d => cases d <;> exact .pure _

theorem pointerByKey (h : ev.Agree r ev') (key value : String) :
    EvalAgree r (ev.pointerByKey key value) (ev'.pointerByKey key value) := by
  simp only [Evaluator.pointerByKey, h.context.keyManager?]
  split
  · exact .throw (r.usual rfl)
  · split
    · exact .pure none
    · exact h.setting.pointerIn _
  · exact h.askPointer _ _

theorem nodesByKey (h : ev.Agree r ev') (key : String) (d : Datum) :
    EvalAgree r (ev.nodesByKey key d) (ev'.nodesByKey key d) := by
  simp only [Evaluator.nodesByKey, h.context.keyManager?]
  split
  · exact h.askPointers _ _
  · exact .get_bind fun _ _ => (h.pointerByKey key _).bind fun _ => .pure _

theorem pointerById (h : ev.Agree r ev') (id : String) : EvalAgree r (ev.pointerById id) (ev'.pointerById id) := by
  simp only [Evaluator.pointerById, h.context.identityManager?]
  split
  · exact .throw (r.usual rfl)
  · exact h.setting.pointerIn _
  · exact h.askPointer _ _

theorem keyed (h : ev.Agree r ev') (key : String) (v : Value) :
    EvalAgree r (ev.keyed key v) (ev'.keyed key v) := by
  cases v with
  | nodes c =>
    refine h.on c fun hmn => (WalkAgree.collectAll (hmn.deliver.bind fun p? => ?_)).bind fun _ => .pure _
    cases p? with
    | none => exact .pure none
    | some p =>
      exact .store_bind fun _ _ => (WalkAgree.monadLift (h.nodesByKey key _)).bind fun _ => .pure _
  | datum d => exact h.nodesByKey key d

theorem subject (h : ev.Agree r ev') (hm : m.Agree r n) (es : List Expr) :
    WalkAgree r (ev.subject m es) (ev'.subject n es) := by
  cases es with
  | nil => exact hm.current
  | cons e es =>
    refine (h.operand hm e).bind fun d => ?_
    cases d with
    | pointer p => exact .pure _
    | _ => exact .pure _

theorem nodeText (h : ev.Agree r ev') (hm : m.Agree r n) (es : List Expr) (f : Pointer → Store → String) :
    WalkAgree r (ev.nodeText m es f) (ev'.nodeText n es f) :=
  (h.subject hm es).bind fun _ => .store_bind fun _ _ => .pure _

theorem subjectValue (h : ev.Agree r ev') (hm : m.Agree r n) (es : List Expr) :
    WalkAgree r (ev.subjectValue m es) (ev'.subjectValue n es) := by
  cases es with
  | nil => exact hm.current.bind fun _ => .pure _
  | cons e es => exact h.operand hm e

theorem chars (h : ev.Agree r ev') (hm : m.Agree r n) (e : Expr) : WalkAgree r (ev.chars m e) (ev'.chars n e) :=
  (h.text hm e).bind fun _ => .pure _

theorem testTexts (h : ev.Agree r ev') (hm : m.Agree r n) (e₁ e₂ : Expr)
    (test : List Char → List Char → Bool) :
    WalkAgree r (ev.testTexts m e₁ e₂ test) (ev'.testTexts n e₁ e₂ test) :=
  (h.chars hm e₁).bind fun _ => (h.chars hm e₂).bind fun _ => .pure _

theorem partOf (h : ev.Agree r ev') (hm : m.Agree r n) (e₁ e₂ : Expr)
    (part : List Char → List Char → List Char) :
    WalkAgree r (ev.partOf m e₁ e₂ part) (ev'.partOf n e₁ e₂ part) :=
  (h.chars hm e₁).bind fun _ => (h.chars hm e₂).bind fun _ => .pure _

theorem sliced (part? : Option (List Char)) : WalkAgree r (Evaluator.sliced part?) (Evaluator.sliced part?) := by
  cases part? with
  | none => exact .throw (r.usual rfl)
  | some part => exact .pure _

theorem substring (h : ev.Agree r ev') (hm : m.Agree r n) (e position : Expr) (length : Option Expr) :
    WalkAgree r (ev.substring m e position length) (ev'.substring n e position length) := by
  refine (h.chars hm e).bind fun _ => (h.double hm position).bind fun _ => ?_
  cases length with
  | none => exact sliced _
  | some e =>
    have hlength : WalkAgree r (some <$> ev.double m e) (some <$> ev'.double n e) := by
      rw [map_eq_pure_bind, map_eq_pure_bind]
      exact (h.double hm e).bind fun _ => .pure _
    exact hlength.bind fun _ => sliced _

theorem translate (h : ev.Agree r ev') (hm : m.Agree r n) (e old new : Expr) :
    WalkAgree r (ev.translate m e old new) (ev'.translate n e old new) :=
  (h.chars hm e).bind fun _ => (h.chars hm old).bind fun _ => (h.chars hm new).bind fun _ => .pure _

theorem summands (h : ev.Agree r ev') (v : Value) : EvalAgree r (ev.summands v) (ev'.summands v) := by
  cases v with
  | nodes c => exact (h.deliverAll c).bind fun _ => .get_bind fun _ _ => .pure _
  | datum d =>
    cases d with
    | pointer p =>
      refine .get_bind fun _ _ => ?_
      split
      · exact .pure _
      · exact .throw (r.usual rfl)
    | object j => cases j <;> first | exact .throw (r.usual rfl) | exact .pure _
    | _ => exact .throw (r.usual rfl)

theorem symbols (h : ev.Agree r ev') (hm : m.Agree r n) (format : Option Expr) :
    WalkAgree r (ev.symbols m format) (ev'.symbols n format) := by
  cases format with
  | none =>
    simp only [Evaluator.symbols, h.context.usualFormat]
    exact .pure _
  | some e =>
    refine (h.plain hm e).bind fun _ => .store_bind fun _ _ => ?_
    dsimp only
    rw [h.context.decimalFormat?]
    split
    · exact .pure _
    · exact .throw (r.usual rfl)

theorem formatNumber (h : ev.Agree r ev') (hm : m.Agree r n) (e pattern : Expr) (format : Option Expr) :
    WalkAgree r (ev.formatNumber m e pattern format) (ev'.formatNumber n e pattern format) := by
  refine (h.double hm e).bind fun _ => (h.text hm pattern).bind fun _ => (h.symbols hm format).bind fun _ => ?_
  split
  · exact .pure _
  · exact .throw (r.usual rfl)

theorem lang (h : ev.Agree r ev') (hm : m.Agree r n) (e : Expr) :
    WalkAgree r (ev.lang m e) (ev'.lang n e) := by
  refine (h.chars hm e).bind fun _ => hm.current.bind fun p? => ?_
  cases p? with
  | none => exact .pure _
  | some p =>
    refine .store_bind fun _ _ => ?_
    simp only [Evaluator.languageOf, h.context.locale]
    exact .pure _

theorem coreValue (h : ev.Agree r ev') (hm : m.Agree r n) (f : CoreFunction) (es : List Expr) :
    WalkAgree r (ev.coreValue m f es) (ev'.coreValue n f es) := by
  have hnumber : ∀ e (g : Float → Float), WalkAgree r (do pure (Value.number (g (← ev.double m e))))
      (do pure (Value.number (g (← ev'.double n e)))) := fun e _ => (h.double hm e).bind fun _ => .pure _
  have htruth : ∀ e (g : Bool → Bool), WalkAgree r (do pure (Value.boolean (g (← ev.truth m e))))
      (do pure (Value.boolean (g (← ev'.truth n e)))) := fun e _ => (h.truth hm e).bind fun _ => .pure _
  have hsubject : ∀ es (g : Store → Datum → Value), WalkAgree r
      (do let d ← ev.subjectValue m es; pure (g (← Walk.store) d))
      (do let d ← ev'.subjectValue n es; pure (g (← Walk.store) d)) := fun es _ =>
    (h.subjectValue hm es).bind fun _ => .store_bind fun _ _ => .pure _
  unfold Evaluator.coreValue
  split
  · exact hm.listSet.bind fun _ => .pure _
  · exact .frame_bind fun _ => .pure _
  · exact (h.lazy hm _).bind fun v => (WalkAgree.monadLift (h.countOf v)).bind fun _ => .pure _
  · exact (h.text hm _).bind fun id => (WalkAgree.monadLift (h.pointerById id)).bind fun _ => .pure _
  · refine (h.plain hm _).bind fun _ => .store_bind fun _ _ => (h.lazy hm _).bind fun v => ?_
    exact (WalkAgree.monadLift (h.keyed _ v)).bind fun _ => .pure _
  · exact h.nodeText hm _ _
  · exact h.nodeText hm _ _
  · exact h.nodeText hm _ _
  · exact hsubject _ fun st d => .text (d.toText st)
  · exact hsubject _ fun st d => .number (d.toNumber st)
  · exact hsubject _ fun st d => .number (Number.ofNat (d.toText st).length)
  · exact (WalkAgree.mapM (h.text hm) es).bind fun _ => .pure _
  · exact h.testTexts hm _ _ _
  · exact h.testTexts hm _ _ _
  · exact h.testTexts hm _ _ _
  · exact h.partOf hm _ _ _
  · exact h.partOf hm _ _ _
  · exact h.substring hm _ _ _
  · exact h.substring hm _ _ _
  · exact (h.chars hm _).bind fun _ => .pure _
  · exact h.translate hm _ _ _
  · exact htruth _ fun b => b
  · exact htruth _ fun b => !b
  · exact .pure _
  · exact .pure _
  · exact .pure _
  · exact h.lang hm _
  · refine (h.lazy hm _).bind fun v => (WalkAgree.monadLift (h.summands v)).bind fun _ => ?_
    exact .store_bind fun _ _ => .pure _
  · exact hnumber _ Number.floor
  · exact hnumber _ Number.ceiling
  · exact hnumber _ Number.roundHalfUp
  · exact h.formatNumber hm _ _ _
  · exact h.formatNumber hm _ _ _
  · exact .throw (r.usual rfl)

theorem callCore (h : ev.Agree r ev') (hm : m.Agree r n) (f : CoreFunction) (es : List Expr) :
    WalkAgree r (ev.callCore m f es) (ev'.callCore n f es) := .ite (h.coreValue hm f es) (.throw (r.usual rfl))

/-! ## §G  Every depth -/

theorem valueOf (h : ev.Agree r ev') (hm : m.Agree r n) (e : Expr) :
    WalkAgree r (ev.valueOf m e) (ev'.valueOf n e) := by
  cases e with
  | number x => exact .pure _
  | text s => exact .pure _
  | var name =>
    refine .store_bind fun st hst => ?_
    rw [h.context.variableValue? st hst]
    split
    · exact .pure _
    · exact .throw (r.usual rfl)
  | operation op args => exact h.operation hm op args
  | core f args => exact h.callCore hm f args
  | call name args => exact h.callFunction hm name args
  | path absolute steps => exact h.firstNode (h.locationPath hm absolute steps)
  | filter head predicates steps => exact h.firstNode (h.filterPath hm head predicates steps)

theorem lazyValueOf (h : ev.Agree r ev') (hm : m.Agree r n) (e : Expr) :
    WalkAgree r (ev.lazyValueOf m e) (ev'.lazyValueOf n e) := by
  cases e with
  | var name =>
    refine .store_bind fun st hst => ?_
    rw [h.context.variableRef st hst]
    exact .pure _
  | path absolute steps => exact (h.locationPath hm absolute steps).bind fun _ => .pure _
  | filter head predicates steps => exact (h.filterPath hm head predicates steps).bind fun _ => .pure _
  | number x => exact .pure _
  | text s => exact .pure _
  | operation op args => exact h.operation hm op args
  | core f args => exact h.callCore hm f args
  | call name args => exact h.callFunction hm name args

/-- One level more. -/
theorem next (h : ev.Agree r ev') : ev.next.Agree r ev'.next where
  setting := h.setting
  surroundings := h.surroundings
  lazy := h.lazyValueOf
  value := h.valueOf
  hosted := h.hosted

end Evaluator.Agree

end NodePath
