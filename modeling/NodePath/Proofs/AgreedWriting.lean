/-
# NodePath.Proofs.AgreedWriting — paths created in agreement

A path is created step by step. What a step is asked for agrees, as it does when a text is read; and where a step makes
a child or an attribute, the regime has to allow it.

* §A  `Regime.Creates`.
* §B  Steps and paths.
-/
import NodePath.Context.Write
import NodePath.Proofs.AgreedReading

namespace NodePath

variable {r : Regime}

/-! ## §A  New nodes -/

/-- **Creates** says that new children and attributes are allowed. -/
structure Regime.Creates (r : Regime) : Prop where
  child : ∀ (p : Pointer) (name : QName) (index : Option Nat),
    EvalAgree r (p.createChild name index) (p.createChild name index)
  member : ∀ (p : Pointer) (name : QName), EvalAgree r (p.createAttribute name) (p.createAttribute name)

namespace Setting.Ready

variable {s t : Setting}

/-! ## §B  Steps and paths -/

theorem predicateValue (h : s.Ready r t) (e : Expr) : EvalAgree r (s.predicateValue e) (t.predicateValue e) := by
  have hev := h.predicateEvaluator e
  refine h.start.bind fun c => (hev.on c fun hmn => hev.value hmn e).bind fun v => ?_
  cases v with
  | datum d => exact .pure d
  | nodes c => exact .tryCatch (hev.firstOf _) fun _ _ => .pure _

theorem indexOf (h : s.Ready r t) (e : Expr) : EvalAgree r (s.indexOf e) (t.indexOf e) := by
  refine (h.predicateValue e).bind fun d => .get_bind fun _ _ => ?_
  cases d with
  | number x => exact .ite (.pure _) (.throw (r.usual rfl))
  | _ => exact .throw (r.usual rfl)

/-- **A step** evaluates its predicate, and then makes at most one child or attribute. -/
theorem createStep (h : s.Ready r t) (hr : r.Creates) (parent : Pointer) (step : Step) :
    EvalAgree r (s.createStep parent step) (t.createStep parent step) := by
  have hhead : EvalAgree r (step.predicates.head?.mapM s.indexOf) (step.predicates.head?.mapM t.indexOf) := by
    cases step.predicates.head? with
    | none => exact .pure none
    | some e =>
      show EvalAgree r (some <$> s.indexOf e) (some <$> t.indexOf e)
      rw [map_eq_pure_bind, map_eq_pure_bind]
      exact (h.indexOf e).bind fun _ => .pure _
  refine hhead.bind fun index => .get_bind fun st hst => ?_
  -- Labels stand for the same addresses, so the same nodes are there already.
  have hnamed : t.named? st = s.named? st := by
    unfold Setting.named?
    rw [funext (h.context.addressOf st hst)]
  rw [hnamed]
  split
  · split
    · exact .pure _
    · exact hr.child parent _ index
  · split
    · exact .pure _
    · exact hr.member parent _
  · exact .pure parent

/-- **Steps** are followed the same, by induction on how many there are, wherever they end. -/
theorem createSteps (h : s.Ready r t) (hr : r.Creates) (p : Pointer) (steps : List Step) :
    EvalAgree r (s.createSteps p steps) (t.createSteps p steps) := by
  induction steps generalizing p with
  | nil => exact .pure p
  | cons step steps ih =>
    exact (EvalAgree.opened p).bind fun q => (h.createStep hr q step).bind fun q' => ih q'

theorem create (h : s.Ready r t) (hr : r.Creates) (text : String) (e : Expr) :
    EvalAgree r (s.create text e) (t.create text e) := by
  have hvariable : ∀ name, EvalAgree r (s.declaredVariable name) (t.declaredVariable name) := by
    refine fun name => .get_bind fun st hst => ?_
    dsimp only
    rw [h.context.variableRef st hst]
    exact .ite (.pure _) (.throw (r.usual rfl))
  refine .ite ((EvalAgree.throw (r.usual rfl)).bind fun _ => ?rest) ?rest
  rw [h.context.rootPointer, h.context.contextPointer]
  split
  · exact h.createSteps hr _ _
  · exact (hvariable _).bind fun p => h.createSteps hr p _
  · exact hvariable _
  · exact .throw (r.usual rfl)

end Setting.Ready

end NodePath
