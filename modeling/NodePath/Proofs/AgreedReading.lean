/-
# NodePath.Proofs.AgreedReading — texts read in agreement

A text is compiled before it is evaluated, and what is evaluated may find nodes by texts of its own, and call functions
of the host program. When those agree, so does everything that is asked in two contexts that know the same; only where
a value turns out to be absent does it matter whether the contexts are lenient.

* §A  Evaluators and surroundings of every depth.
* §B  Values and nodes of an expression.
* §C  Absent values.
* §D  Texts.
-/
import NodePath.Context.Read
import NodePath.Proofs.AgreedEvaluation

namespace NodePath

variable {r : Regime}

/-! ## §A  Every depth -/

/-- **Ready** is what is known of two settings before anything is evaluated. -/
structure Setting.Ready (r : Regime) (s t : Setting) : Prop extends s.Agree r t where
  hosted : ∀ depth node position,
    ((Evaluator.idle s (s.surroundingsTo depth)).callAt node position).Pulls r
      ((Evaluator.idle t (t.surroundingsTo depth)).callAt node position) →
    ∀ handle vs, EvalAgree r (s.host handle ((Evaluator.idle s (s.surroundingsTo depth)).callAt node position) vs)
      (t.host handle ((Evaluator.idle t (t.surroundingsTo depth)).callAt node position) vs)

namespace Setting.Ready

variable {s t : Setting}

/-- **Expressions are evaluated the same**, by the evaluators of every depth. -/
theorem evaluatorTo (h : s.Ready r t) {depth : Nat}
    (hs : (s.surroundingsTo depth).Agree r (t.surroundingsTo depth)) (levels : Nat) :
    (s.evaluatorTo (s.surroundingsTo depth) levels).Agree r (t.evaluatorTo (t.surroundingsTo depth) levels) := by
  induction levels with
  | zero =>
    exact {
      setting := h.toAgree
      surroundings := hs
      lazy := fun _ _ => .throw (r.usual rfl)
      value := fun _ _ => .throw (r.usual rfl)
      hosted := fun handle node position vs =>
        h.hosted depth node position (Evaluator.pulls_callAt hs node position) handle vs }
  | succ levels ih => exact ih.next

/-- **Predicates are answered the same**, in the surroundings of every depth. -/
theorem surroundingsTo (h : s.Ready r t) (depth : Nat) :
    (s.surroundingsTo depth).Agree r (t.surroundingsTo depth) := by
  have hresolve : ∀ st, r.good st → t.context.addressOf st = s.context.addressOf st := fun st hst =>
    funext (h.context.addressOf st hst)
  -- The predicates of one depth are evaluated in the surroundings of the depth before.
  induction depth with
  | zero => exact ⟨hresolve, fun _ _ => .throw (r.usual rfl)⟩
  | succ depth ih =>
    refine ⟨hresolve, fun hmn e => ?_⟩
    have hev := h.evaluatorTo ih e.size
    exact (hev.value hmn e).bind fun v => .monadLift (hev.firstOf v)

theorem evaluator (h : s.Ready r t) (e : Expr) : (s.evaluator e).Agree r (t.evaluator e) := by
  unfold Setting.evaluator Setting.surroundings
  exact h.evaluatorTo (h.surroundingsTo _) _

theorem predicateEvaluator (h : s.Ready r t) (e : Expr) : (s.predicateEvaluator e).Agree r (t.predicateEvaluator e) := by
  unfold Setting.predicateEvaluator Setting.inner
  exact h.evaluatorTo (h.surroundingsTo _) _

/-! ## §B  Values and nodes -/

theorem start (h : s.Ready r t) : EvalAgree r s.start t.start := by
  unfold Setting.start
  rw [h.context.contextPointer]
  exact .get_bind fun _ _ => .pure _

theorem compute (h : s.Ready r t) (e : Expr) : EvalAgree r (s.compute e) (t.compute e) :=
  h.start.bind fun c => (h.evaluator e).on c fun hmn => (h.evaluator e).lazy hmn e

theorem glanceValue (h : s.Ready r t) (e : Expr) : EvalAgree r (s.glanceValue e) (t.glanceValue e) := by
  have hvalue : EvalAgree r (s.computeValue e) (t.computeValue e) :=
    h.start.bind fun c => (h.evaluator e).on c fun hmn => (h.evaluator e).value hmn e
  refine hvalue.bind fun v => ?_
  cases v with
  | datum d => exact .pure d
  | nodes c => exact .tryCatch ((h.evaluator e).firstOf _) fun _ _ => .pure _

theorem firstPointer (h : s.Ready r t) (e : Expr) : EvalAgree r (s.firstPointer e) (t.firstPointer e) := by
  refine (h.compute e).bind fun v => ?_
  cases v with
  | nodes c => exact (h.evaluator e).first c
  | datum d =>
    cases d with
    | null => exact .pure none
    | _ => exact (EvalAgree.wrap _).bind fun _ => .pure _

theorem values (h : s.Ready r t) (e : Expr) : EvalAgree r (s.values e) (t.values e) := by
  refine (h.compute e).bind fun v => ?_
  cases v with
  | nodes c => exact ((h.evaluator e).on c fun hmn => hmn.deliverRest).bind fun _ => .get_bind fun _ _ => .pure _
  | datum d =>
    cases d with
    | pointer p => exact .get_bind fun _ _ => .pure _
    | _ => exact .pure _

theorem pointers (h : s.Ready r t) (e : Expr) : EvalAgree r (s.pointers e) (t.pointers e) := by
  refine (h.compute e).bind fun v => ?_
  cases v with
  | nodes c => exact (h.evaluator e).on c fun hmn => hmn.deliverRest
  | datum d =>
    cases d with
    | null => exact .pure _
    | _ => exact (EvalAgree.wrap _).bind fun _ => .pure _

/-! ## §C  Absent values -/

section

variable {text : String} (h : s.Ready r t) (hlenient : t.context.isLenient = s.context.isLenient)
  (hadmits : s.context.isLenient = true ∨ r.admits (.notFound text))

include hlenient hadmits in
theorem absent {α : Type} (a : α) : EvalAgree r (s.absent text a) (t.absent text a) := by
  unfold Setting.absent
  rw [hlenient]
  -- Strict contexts report that the value is absent, so they may do so.
  rcases hadmits with hs | hadmits
  · rw [if_pos hs]
    exact .pure a
  · exact .ite (.pure a) (.throw hadmits)

include h hlenient hadmits

theorem readValue (e : Expr) : EvalAgree r (s.readValue text e) (t.readValue text e) := by
  have hnull := absent hlenient hadmits Datum.null
  refine (h.glanceValue e).bind fun d => ?_
  cases d with
  | null => exact .ite hnull (.pure _)
  | pointer p => exact .get_bind fun _ _ => .ite (.pure _) hnull
  | _ => exact .pure _

theorem readPointer (e : Expr) : EvalAgree r (s.readPointer text e) (t.readPointer text e) := by
  have hnone := absent hlenient hadmits (none : Option Pointer)
  refine (h.firstPointer e).bind fun p? => ?_
  cases p? with
  | none => exact hnone
  | some p =>
    refine .get_bind fun st _ => ?_
    rw [hlenient]
    exact .ite (.pure _) hnone

end

end Setting.Ready

/-! ## §D  Texts -/

/-- What a text is used for, in agreement. -/
theorem Reading.agree_withText {α : Type} (text : String) {f g : Expr → Eval α}
    (h : ∀ e, EvalAgree r (f e) (g e)) : EvalAgree r (Reading.withText text f) (Reading.withText text g) :=
  .tryCatch ((EvalAgree.compileText text).bind h) fun _ he => .throw (Regime.atPath he text)

/-- The call of a function in a context, by an expression that may read texts `level` times more and has predicates
`depth` deep around it. -/
def Context.callAt (c : Context) (host : Host) (level depth : Nat) (node : Option Pointer) (position : Nat) : Call :=
  let s := (Reading.toDepth host level).setting host c
  (Evaluator.idle s (s.surroundingsTo depth)).callAt node position

end NodePath
