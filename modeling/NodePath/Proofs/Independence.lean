/-
# NodePath.Proofs.Independence — expressions that do not depend on their context

An expression that is not context dependent never asks the cursor against which it is evaluated for anything: it
is an operation on the store alone, whatever the cursor is and however it moves. So a predicate of that kind may
be evaluated once for a whole set, or where there is no set at all. And if evaluations are repeated later, when
documents have been stored and trees have been compiled in between, what it comes to is still converted alike.

* §A  `Walk.Aloof`: walks that leave their cursor alone.
* §B  Operands and operations.
* §C  Paths.
* §D  Core functions.
* §E  Evaluators and surroundings of every depth.
* §F  What an independent expression comes to.
-/
import NodePath.Proofs.LocationPath

namespace NodePath

/-! ## §A  Walks that leave their cursor alone -/

/-- **Aloof** says that a walk is one operation on the store, whatever the motion is that it is given. -/
def Walk.Aloof {α : Type} (f : Motion → Walk α) : Prop := ∃ r : Eval α, ∀ m, f m = Walk.lift r

namespace Walk

/-- Two walks are the same when all their runs are. -/
theorem ext_runOn {α : Type} {f g : Walk α} (h : ∀ c st, f.runOn c st = g.runOn c st) : f = g := by
  funext c st
  obtain ⟨hanswer, hmoved⟩ := Prod.ext_iff.mp (h c st)
  obtain ⟨hcursor, hstore⟩ := Prod.ext_iff.mp hmoved
  exact Prod.ext (Prod.ext hanswer hcursor) hstore

/-- One operation on the store after another is one. -/
theorem lift_bind {α β : Type} (r : Eval α) (s : α → Eval β) :
    (lift r >>= fun a => lift (s a)) = lift (r >>= s) := by
  apply ext_runOn
  intro c st
  rw [runOn_bind, runOn_lift, runOn_lift, Eval.runOn_bind]
  rcases r.runOn st with ⟨a, st'⟩
  cases a <;> rfl

namespace Aloof

variable {α β : Type} {f : Motion → Walk α} {g : Motion → α → Walk β}

theorem lift (r : Eval α) : Aloof fun _ => (liftM r : Walk α) := ⟨r, fun _ => rfl⟩

theorem pure (a : α) : Aloof fun _ => (Pure.pure a : Walk α) := ⟨Pure.pure a, fun _ => rfl⟩

theorem throw (e : EvalError) : Aloof fun _ => (MonadExcept.throw e : Walk α) := ⟨MonadExcept.throw e, fun _ => rfl⟩

theorem bind (hf : Aloof f) (hg : ∀ a, Aloof fun m => g m a) : Aloof fun m => f m >>= g m := by
  obtain ⟨r, hr⟩ := hf
  choose s hs using hg
  refine ⟨r >>= s, fun m => ?_⟩
  have hgs : g m = fun a => Walk.lift (s a) := funext fun a => hs a m
  show f m >>= g m = _
  rw [hr, hgs, lift_bind]

theorem store_bind {g : Motion → Store → Walk β} (hg : ∀ st, Aloof fun m => g m st) :
    Aloof fun m => Walk.store >>= g m := bind ⟨get, fun _ => rfl⟩ hg

/-- What a walk does to the cursor it moves does not depend on how that cursor moves. -/
theorem moving {r : Eval α} (h : ∀ m, f m = Walk.lift r) (s : Surroundings) : Walk.moving s f = Walk.lift r := by
  apply ext_runOn
  intro c st
  rw [Walk.moving, runOn_cursor_bind, h]

theorem ofExcept (r : Except EvalError α) : Aloof fun _ => Walk.ofExcept r := by
  cases r with
  | ok a => exact .pure a
  | error e => exact .throw e

/-- A list of walks, one after the other. -/
theorem mapM {ι : Type} {f : Motion → ι → Walk α} {is : List ι} (h : ∀ i ∈ is, Aloof fun m => f m i) :
    Aloof fun m => is.mapM (f m) := by
  induction is with
  | nil => exact .pure []
  | cons i is ih =>
    simp only [List.mapM_cons]
    refine (h i List.mem_cons_self).bind fun a => ?_
    exact (ih fun j hj => h j (List.mem_cons_of_mem i hj)).bind fun as => .pure (a :: as)

end Aloof

end Walk

open Walk (Aloof)

/-! ## §B  Operands and operations -/

/-- The expressions of a list in which none depends on its context do not, either. -/
theorem Expr.independent_of_mem {e : Expr} {es : List Expr} (hes : Expr.anyDependent es = false) (h : e ∈ es) :
    e.isContextDependent = false := by
  cases he : e.isContextDependent with
  | false => rfl
  | true => simp [Expr.anyDependent_of_mem h he] at hes

/-- **Aloof** says that the values of independent expressions have nothing to do with the cursor. -/
structure Evaluator.Aloof (ev : Evaluator) : Prop where
  lazy : ∀ e, e.isContextDependent = false → Walk.Aloof fun m => ev.lazy m e
  value : ∀ e, e.isContextDependent = false → Walk.Aloof fun m => ev.value m e

namespace Evaluator.Aloof

variable {ev : Evaluator} {e : Expr} {es : List Expr}

theorem operand (h : ev.Aloof) (he : e.isContextDependent = false) : Walk.Aloof fun m => ev.operand m e :=
  (h.lazy e he).bind fun _ => .lift _

theorem plain (h : ev.Aloof) (he : e.isContextDependent = false) : Walk.Aloof fun m => ev.plain m e :=
  (h.value e he).bind fun _ => .lift _

theorem text (h : ev.Aloof) (he : e.isContextDependent = false) : Walk.Aloof fun m => ev.text m e :=
  (h.operand he).bind fun _ => .store_bind fun _ => .pure _

theorem truth (h : ev.Aloof) (he : e.isContextDependent = false) : Walk.Aloof fun m => ev.truth m e :=
  (h.operand he).bind fun _ => .store_bind fun _ => .pure _

theorem double (h : ev.Aloof) (he : e.isContextDependent = false) : Walk.Aloof fun m => ev.double m e :=
  (h.plain he).bind fun _ => .store_bind fun _ => .pure _

theorem chars (h : ev.Aloof) (he : e.isContextDependent = false) : Walk.Aloof fun m => ev.chars m e :=
  (h.text he).bind fun _ => .pure _

theorem anyIs (h : ev.Aloof) (decisive : Bool) (hes : ∀ e ∈ es, e.isContextDependent = false) :
    Walk.Aloof fun m => ev.anyIs m decisive es := by
  induction es with
  | nil => exact .pure false
  | cons e es ih =>
    obtain ⟨he, hes⟩ := List.forall_mem_cons.mp hes
    refine (h.truth he).bind fun b => ?_
    by_cases hb : (b == decisive) = true
    · simp only [hb, if_true]
      exact .pure true
    · simp only [hb]
      exact ih hes

theorem sumOf (h : ev.Aloof) (total : Float) (hes : ∀ e ∈ es, e.isContextDependent = false) :
    Walk.Aloof fun m => ev.sumOf m total es := by
  induction es generalizing total with
  | nil => exact .pure total
  | cons e es ih =>
    obtain ⟨he, hes⟩ := List.forall_mem_cons.mp hes
    exact (h.double he).bind fun x => ih (total + x) hes

theorem unionNodes (h : ev.Aloof) (he : e.isContextDependent = false) :
    Walk.Aloof fun m => ev.unionNodes m e := by
  refine (h.lazy e he).bind fun v => ?_
  cases v with
  | nodes c => exact .lift _
  | datum d =>
    cases d with
    | pointer p => exact .pure [p]
    | null => exact .pure []
    | _ => exact .throw _

theorem unionOf (h : ev.Aloof) (hes : ∀ e ∈ es, e.isContextDependent = false) :
    Walk.Aloof fun m => ev.unionOf m es :=
  (Walk.Aloof.mapM fun e he => h.unionNodes (hes e he)).bind fun _ => .store_bind fun _ =>
    (Walk.Aloof.ofExcept _).bind fun _ => .pure _

/-- An operation is aloof when its operands are. -/
theorem operation (h : ev.Aloof) (op : Operator) (hes : ∀ e ∈ es, e.isContextDependent = false) :
    Walk.Aloof fun m => ev.operation m op es := by
  unfold Evaluator.operation
  split
  · exact (h.anyIs false hes).bind fun _ => .pure _
  · exact (h.anyIs true hes).bind fun _ => .pure _
  · exact (h.unionOf hes).bind fun _ => .pure _
  · exact (h.double (hes _ List.mem_cons_self)).bind fun _ => .pure _
  · exact .throw _
  · exact (h.sumOf 0 hes).bind fun _ => .pure _
  · rename_i l r _ _ _ _ _
    refine (h.lazy l (hes l (by simp))).bind fun _ => (h.lazy r (hes r (by simp))).bind fun _ => ?_
    exact (Walk.Aloof.lift _).bind fun _ => .pure _
  · exact .throw _

/-! ## §C  Paths -/

/-- An absolute path starts at the root, wherever the cursor is. -/
theorem locationPath (ev : Evaluator) (steps : List Step) :
    Walk.Aloof fun m => ev.locationPath m true steps :=
  (Walk.Aloof.pure (some ev.context.rootPointer)).bind fun _ => .store_bind fun _ => .pure _

theorem filterPath (h : ev.Aloof) (he : e.isContextDependent = false) (predicates : List Expr) (steps : List Step) :
    Walk.Aloof fun m => ev.filterPath m e predicates steps :=
  (h.lazy e he).bind fun _ => (Walk.Aloof.lift _).bind fun _ => .pure _

theorem firstNode {path : Motion → Walk Cursor} (h : Walk.Aloof path) :
    Walk.Aloof fun m => ev.firstNode (path m) :=
  h.bind fun _ => (Walk.Aloof.lift _).bind fun _ => .pure _

/-! ## §D  Core functions -/

/-- The node that a function with arguments is asked about. -/
theorem subject (h : ev.Aloof) (hne : es ≠ []) (hes : ∀ e ∈ es, e.isContextDependent = false) :
    Walk.Aloof fun m => ev.subject m es := by
  cases es with
  | nil => exact absurd rfl hne
  | cons e es =>
    refine (h.operand (hes e List.mem_cons_self)).bind fun d => ?_
    cases d with
    | pointer p => exact .pure (some p)
    | _ => exact .pure none

theorem nodeText (h : ev.Aloof) (hne : es ≠ []) (hes : ∀ e ∈ es, e.isContextDependent = false)
    (f : Pointer → Store → String) : Walk.Aloof fun m => ev.nodeText m es f :=
  (h.subject hne hes).bind fun _ => .store_bind fun _ => .pure _

theorem subjectValue (h : ev.Aloof) (hne : es ≠ []) (hes : ∀ e ∈ es, e.isContextDependent = false) :
    Walk.Aloof fun m => ev.subjectValue m es := by
  cases es with
  | nil => exact absurd rfl hne
  | cons e es => exact h.operand (hes e List.mem_cons_self)

theorem testTexts (h : ev.Aloof) {e₁ e₂ : Expr} (h₁ : e₁.isContextDependent = false)
    (h₂ : e₂.isContextDependent = false) (test : List Char → List Char → Bool) :
    Walk.Aloof fun m => ev.testTexts m e₁ e₂ test :=
  (h.chars h₁).bind fun _ => (h.chars h₂).bind fun _ => .pure _

theorem partOf (h : ev.Aloof) {e₁ e₂ : Expr} (h₁ : e₁.isContextDependent = false)
    (h₂ : e₂.isContextDependent = false) (part : List Char → List Char → List Char) :
    Walk.Aloof fun m => ev.partOf m e₁ e₂ part :=
  (h.chars h₁).bind fun _ => (h.chars h₂).bind fun _ => .pure _

theorem concat (h : ev.Aloof) (hes : ∀ e ∈ es, e.isContextDependent = false) :
    Walk.Aloof fun m => ev.concat m es :=
  (Walk.Aloof.mapM fun e he => h.text (hes e he)).bind fun _ => .pure _

theorem sliced (part? : Option (List Char)) : Walk.Aloof fun _ => Evaluator.sliced part? := by
  cases part? with
  | none => exact .throw _
  | some part => exact .pure _

theorem substring (h : ev.Aloof) {position : Expr} {length : Option Expr} (he : e.isContextDependent = false)
    (hp : position.isContextDependent = false) (hl : ∀ e ∈ length, e.isContextDependent = false) :
    Walk.Aloof fun m => ev.substring m e position length := by
  refine (h.chars he).bind fun _ => (h.double hp).bind fun _ => ?_
  cases length with
  | none => exact sliced _
  | some e =>
    have hlength : Walk.Aloof fun m => some <$> ev.double m e := by
      simp only [← bind_pure_comp]
      exact (h.double (hl e rfl)).bind fun _ => .pure _
    exact hlength.bind fun _ => sliced _

theorem translate (h : ev.Aloof) {old new : Expr} (he : e.isContextDependent = false)
    (ho : old.isContextDependent = false) (hn : new.isContextDependent = false) :
    Walk.Aloof fun m => ev.translate m e old new :=
  (h.chars he).bind fun _ => (h.chars ho).bind fun _ => (h.chars hn).bind fun _ => .pure _

theorem symbols (h : ev.Aloof) {format : Option Expr} (hf : ∀ e ∈ format, e.isContextDependent = false) :
    Walk.Aloof fun m => ev.symbols m format := by
  cases format with
  | none => exact .pure _
  | some e =>
    refine (h.plain (hf e rfl)).bind fun d => .store_bind fun st => ?_
    dsimp only
    cases ev.context.decimalFormat? (d.toText st) with
    | some s => exact .pure s
    | none => exact .throw _

theorem formatNumber (h : ev.Aloof) {pattern : Expr} {format : Option Expr} (he : e.isContextDependent = false)
    (hp : pattern.isContextDependent = false) (hf : ∀ e ∈ format, e.isContextDependent = false) :
    Walk.Aloof fun m => ev.formatNumber m e pattern format := by
  refine (h.double he).bind fun x => (h.text hp).bind fun s => (h.symbols hf).bind fun t => ?_
  cases NodePath.formatNumber x s t with
  | ok s => exact .pure _
  | error fault => exact .throw _

/-- **A core function is aloof** when its call does not depend on the context. -/
theorem coreValue (h : ev.Aloof) (f : CoreFunction) (hf : (Expr.core f es).isContextDependent = false) :
    Walk.Aloof fun m => ev.coreValue m f es := by
  have each : ∀ e ∈ es, e.isContextDependent = false := fun e hmem => by
    cases he : e.isContextDependent with
    | false => rfl
    | true => simp [Expr.core_dependent_of_mem hmem he] at hf
  -- a function that may read the context node has an argument to read instead
  have nonempty : Expr.readsContextNode f = true → es ≠ [] := fun hr hes => by
    subst hes
    cases f <;> simp_all [Expr.isContextDependent, Expr.readsContextNode]
  unfold Evaluator.coreValue
  split
  · simp [Expr.isContextDependent] at hf
  · simp [Expr.isContextDependent] at hf
  · exact (h.lazy _ (each _ (by simp))).bind fun _ => (Walk.Aloof.lift _).bind fun _ => .pure _
  · exact (h.text (each _ (by simp))).bind fun _ => (Walk.Aloof.lift _).bind fun _ => .pure _
  · rename_i e₁ e₂
    refine (h.plain (each e₁ (by simp))).bind fun _ => .store_bind fun _ => ?_
    exact (h.lazy e₂ (each e₂ (by simp))).bind fun _ => (Walk.Aloof.lift _).bind fun _ => .pure _
  · exact h.nodeText (nonempty rfl) each _
  · exact h.nodeText (nonempty rfl) each _
  · exact h.nodeText (nonempty rfl) each _
  · exact (h.subjectValue (nonempty rfl) each).bind fun _ => .store_bind fun _ => .pure _
  · exact (h.subjectValue (nonempty rfl) each).bind fun _ => .store_bind fun _ => .pure _
  · exact (h.subjectValue (nonempty rfl) each).bind fun _ => .store_bind fun _ => .pure _
  · exact h.concat each
  · exact h.testTexts (each _ (by simp)) (each _ (by simp)) _
  · exact h.testTexts (each _ (by simp)) (each _ (by simp)) _
  · exact h.testTexts (each _ (by simp)) (each _ (by simp)) _
  · exact h.partOf (each _ (by simp)) (each _ (by simp)) _
  · exact h.partOf (each _ (by simp)) (each _ (by simp)) _
  · exact h.substring (each _ (by simp)) (each _ (by simp)) (by simp)
  · exact h.substring (each _ (by simp)) (each _ (by simp)) (by simpa using each _ (by simp))
  · exact (h.chars (each _ (by simp))).bind fun _ => .pure _
  · exact h.translate (each _ (by simp)) (each _ (by simp)) (each _ (by simp))
  · exact (h.truth (each _ (by simp))).bind fun _ => .pure _
  · exact (h.truth (each _ (by simp))).bind fun _ => .pure _
  · exact .pure _
  · exact .pure _
  · exact .pure _
  · simp [Expr.isContextDependent] at hf
  · refine (h.lazy _ (each _ (by simp))).bind fun _ => (Walk.Aloof.lift _).bind fun _ => ?_
    exact .store_bind fun _ => .pure _
  · exact (h.double (each _ (by simp))).bind fun _ => .pure _
  · exact (h.double (each _ (by simp))).bind fun _ => .pure _
  · exact (h.double (each _ (by simp))).bind fun _ => .pure _
  · exact h.formatNumber (each _ (by simp)) (each _ (by simp)) (by simp)
  · exact h.formatNumber (each _ (by simp)) (each _ (by simp)) (by simpa using each _ (by simp))
  · exact .throw _

theorem callCore (h : ev.Aloof) (f : CoreFunction) (hf : (Expr.core f es).isContextDependent = false) :
    Walk.Aloof fun m => ev.callCore m f es := by
  unfold Evaluator.callCore
  split
  · exact h.coreValue f hf
  · exact .throw _

/-! ## §E  Every depth -/

theorem valueOf (h : ev.Aloof) (he : e.isContextDependent = false) : Walk.Aloof fun m => ev.valueOf m e := by
  cases e with
  | number x => exact .pure _
  | text s => exact .pure _
  | var name =>
    refine .store_bind fun st => ?_
    cases ev.context.variableValue? st name with
    | some d => exact .pure _
    | none => exact .throw _
  | operation op args =>
    refine h.operation op fun e hmem => Expr.independent_of_mem ?_ hmem
    simpa [Expr.isContextDependent] using he
  | core f args => exact h.callCore f he
  | call name args => simp [Expr.isContextDependent] at he
  | path absolute steps =>
    cases absolute with
    | true => exact firstNode (locationPath ev steps)
    | false => simp [Expr.isContextDependent] at he
  | filter head predicates steps =>
    refine firstNode (h.filterPath ?_ predicates steps)
    simp only [Expr.isContextDependent, Bool.or_eq_false_iff] at he
    exact he.1.1

theorem lazyValueOf (h : ev.Aloof) (he : e.isContextDependent = false) :
    Walk.Aloof fun m => ev.lazyValueOf m e := by
  cases e with
  | var name => exact .store_bind fun _ => .pure _
  | path absolute steps =>
    cases absolute with
    | true => exact (locationPath ev steps).bind fun _ => .pure _
    | false => simp [Expr.isContextDependent] at he
  | filter head predicates steps =>
    simp only [Expr.isContextDependent, Bool.or_eq_false_iff] at he
    exact (h.filterPath he.1.1 predicates steps).bind fun _ => .pure _
  | number x => exact h.valueOf he
  | text s => exact h.valueOf he
  | operation op args => exact h.valueOf he
  | core f args => exact h.valueOf he
  | call name args => exact h.valueOf he

end Evaluator.Aloof

/-- **Independent expressions are aloof**, whatever the evaluator's depth is and whatever its stages ask for. -/
theorem Setting.aloof_evaluatorTo (s : Setting) (around : Surroundings) (depth : Nat) :
    (s.evaluatorTo around depth).Aloof := by
  induction depth with
  | zero => exact ⟨fun _ _ => .throw _, fun _ _ => .throw _⟩
  | succ depth ih => exact ⟨fun _ he => ih.lazyValueOf he, fun _ he => ih.valueOf he⟩

/-! ## §F  What an independent expression comes to -/

/-- A value as text, number, truth value and document. -/
structure Conversions where
  text : String
  number : Float
  truth : Bool
  json : Json

/-- The conversions of a value that is not a node-set. -/
def Datum.conversions (d : Datum) (st : Store) : Conversions :=
  ⟨d.toText st, d.toNumber st, d.toBoolean st, d.toJson st⟩

namespace Setting

/-- The value of an expression against the last stage of the cursor of the walk. -/
def valueHere (s : Setting) (e : Expr) : Walk Value := (s.evaluator e).here ((s.evaluator e).value · e)

/-- The conversions of a value. A node-set is converted through its first node, and counts as empty where it
fails. -/
def convert (s : Setting) (e : Expr) : Value → Eval Conversions
  | .datum d => do pure (d.conversions (← get))
  | v => do
    let d ← tryCatch ((s.evaluator e).firstOf v) fun _ => pure .null
    pure (d.conversions (← get))

/-- What an expression comes to against the last stage of the cursor of the walk. -/
def comesTo (s : Setting) (e : Expr) : Walk Conversions := do
  let v ← s.valueHere e
  s.convert e v

variable {s : Setting} {e : Expr}

/-- The value of an independent expression is found without the cursor, and so it is the value at the context node. -/
theorem valueHere_of_independent (he : e.isContextDependent = false) :
    ∃ r : Eval Value, s.valueHere e = Walk.lift r ∧ s.computeValue e = r := by
  obtain ⟨r, hr⟩ := (s.aloof_evaluatorTo s.surroundings e.size).value e he
  have hhere : s.valueHere e = Walk.lift r := Walk.Aloof.moving hr _
  refine ⟨r, hhere, ?_⟩
  funext st
  show (s.start >>= fun c => Walk.within c (s.valueHere e)).runOn st = r.runOn st
  rw [Eval.runOn_bind, Setting.runOn_start, hhere]
  exact Walk.runOn_within _ _ st

/-- What an independent expression comes to is found without the cursor. -/
theorem comesTo_of_independent (he : e.isContextDependent = false) :
    s.comesTo e = Walk.lift (s.computeValue e >>= s.convert e) := by
  obtain ⟨r, hhere, hr⟩ := s.valueHere_of_independent he
  rw [comesTo, hhere, hr]
  exact Walk.lift_bind r (s.convert e)

/-- The answer to an independent predicate is found without the cursor of its set. -/
theorem aloof_test (s : Setting) (he : e.isContextDependent = false) :
    Walk.Aloof fun m => s.surroundings.test m e := by
  have hdepth : ∀ depth, Walk.Aloof fun m => (s.surroundingsTo depth).test m e := fun depth => by
    cases depth with
    | zero => exact .throw _
    | succ depth => exact ((s.aloof_evaluatorTo _ e.size).value e he).bind fun _ => .lift _
  unfold Setting.surroundings
  exact hdepth _

variable {w : World}

/-- Alike values are converted alike. -/
theorem Natural.convert (h : s.Natural w) {v v' : Value} (hv : v.Alike w v') :
    EvalAlike w (.eq Conversions) (s.convert e v) (s.convert e v') := by
  have hdatum : ∀ {u st st'} {d d' : Datum}, World.Holds u st st' → Datum.Alike u d d' →
      d.conversions st = d'.conversions st' := fun hst hd => by
    rw [Datum.conversions, Datum.conversions, hst.toText hd, hst.toNumber hd, hst.toBoolean hd, hst.toJson hd]
  cases hv with
  | datum hd => exact .get_bind fun u st st' hu hst => .pure (hdatum hst (hd.grow hu))
  | nodes hc =>
    refine (EvalAlike.tryCatch ((h.evaluator e).firstOf (.nodes hc)) fun _ _ _ => .pure .null).bind ?_
    intro u d d' _ hd
    exact .get_bind fun x st st' hx hst => .pure (hdatum hst (Datum.Alike.grow hx hd))

theorem Natural.comesTo (h : s.Natural w) :
    EvalAlike w (.eq Conversions) (s.computeValue e >>= s.convert e) (s.computeValue e >>= s.convert e) :=
  (h.computeValue e).bind fun _ _ _ hv hab => (h.grow hv).convert hab

end Setting

/-- **An expression that is not context dependent comes to the same at every stage.** Its value is one operation
on the store, which neither looks at the cursor nor moves it, and which is the evaluation at the context node; and
so is the answer to a predicate, however the cursor of its set moves. So against any two stages in a context it
comes to the same error, or to values with the same conversions. Where the functions of the host are pure, and so
are the key and identity managers, whose templates may call them, that is true of evaluations at different times,
too, whatever has been read from the store before the one or the other. -/
theorem Context.independent_comesTo (c : Context) (host : Host) {e : Expr} (he : e.isContextDependent = false) :
    (∃ r : Eval Value, (c.setting host).valueHere e = Walk.lift r ∧ (c.setting host).computeValue e = r) ∧
    (∃ r : Eval Datum, ∀ m, (c.setting host).surroundings.test m e = Walk.lift r) ∧
    (∀ (stage stage' : Cursor) (st : Store),
      (((c.setting host).comesTo e).runOn stage st).1 = (((c.setting host).comesTo e).runOn stage' st).1) ∧
    (∀ base : Store, c.Settled host base →
      ∀ (stage stage' : Cursor) (st st' : Store), base.Extends st → base.Extends st' →
        (((c.setting host).comesTo e).runOn stage st).1 = (((c.setting host).comesTo e).runOn stage' st').1) := by
  refine ⟨Setting.valueHere_of_independent he, Setting.aloof_test _ he, ?_, ?_⟩
  · intro stage stage' st
    rw [Setting.comesTo_of_independent he]
    rfl
  · intro base hbase stage stage' st st' hst hst'
    rw [Setting.comesTo_of_independent he, Walk.runOn_lift, Walk.runOn_lift]
    have hnatural : (c.setting host).Natural (.only base hbase.closed) := Context.Within.setting hbase.within hbase.host
    obtain ⟨w, -, -, hr⟩ := hnatural.comesTo _ (.refl _) st st' (World.holds_only hst hst')
    show (Eval.runOn _ st).1 = (Eval.runOn _ st').1
    generalize (Eval.runOn _ st).1 = r, (Eval.runOn _ st').1 = r' at hr ⊢
    cases hr with
    | ok hab => exact congrArg Except.ok hab
    | error e => rfl

/-- The number of children `a` of the root. -/
def countOfA : Expr := .core .count [.path true [⟨.child, .name (.plain "a"), []⟩]]

/-- An object with an array of two elements. -/
def arrayDocument : Json := .object [("a", .array [.int 1, .int 2]), ("b", .int 3)]

/-- That number does not depend on the context: over a document with two of them it is two at all stages and times. -/
theorem Context.independent_comesTo_count :
    countOfA.isContextDependent = false ∧
    ∀ (stage : Cursor) (st : Store), (Store.holding arrayDocument).Extends st →
      (((Context.atTop.setting stockHost).comesTo countOfA).runOn stage st).1.map Conversions.number = .ok 2 := by
  refine ⟨rfl, fun stage st hst => ?_⟩
  have hbase : (((Context.atTop.setting stockHost).comesTo countOfA).runOn default (.holding arrayDocument)).1.map
      Conversions.number = .ok 2 := by decide +kernel
  have hsettled := Context.settled_atTop arrayDocument
  have hsame := (Context.independent_comesTo Context.atTop stockHost (e := countOfA) rfl).2.2.2 _ hsettled stage default
    st _ hst (.refl hsettled.sound)
  rwa [hsame]

end NodePath
