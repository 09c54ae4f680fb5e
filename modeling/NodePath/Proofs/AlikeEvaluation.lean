/-
# NodePath.Proofs.AlikeEvaluation — expressions are evaluated alike

What an expression comes to follows from what it asks the cursor for: its node, its position, and how many nodes
its set has. So it comes to alike values at two cursors that answer these questions alike, whatever else the
cursors are; and an expression that does not depend on its context needs no answer at all. Since the cursors of
inner paths are alike to begin with, the proof goes by the depth of the evaluator and needs the questions only
for the cursor outside.

* §A  What a context knows.
* §B  `Queries`, `Setting.Natural`, `Surroundings.Natural`, `Evaluator.Natural`.
* §C  Working with cursors.
* §D  Operands and calls.
* §E  Operations.
* §F  Paths.
* §G  Core functions.
* §H  Evaluators and surroundings of every depth.
-/
import NodePath.Evaluation.Expr
import NodePath.Proofs.AlikeMotion
import NodePath.Proofs.Purity

namespace NodePath

variable {w w' : World} {st st' : Store}

/-! ## §A  Contexts -/

namespace World.Holds

theorem contextAddressOf (h : w.Holds st st') {c : Context} (hc : c.Within w.base.documents.size)
    (label : String) : c.addressOf st label = c.addressOf st' label := by
  have hnode : ∀ p : Pointer, p.Within w.base.documents.size → p.addressOf st label = p.addressOf st' label :=
    fun p hp => h.addressOf (Pointer.Within.alike hp) label
  have hown : c.own.namespaces.node.bind (·.addressOf st label) =
      c.own.namespaces.node.bind (·.addressOf st' label) := by
    cases hn : c.own.namespaces.node with
    | none => rfl
    | some p => exact hnode p (hc.namespaceNode p hn)
  simp only [Context.addressOf, NamespaceChain.address, NamespaceChain.node?, Context.namespaces, Context.layers,
    List.map_cons, List.head?_cons, Option.bind_some, hown, Context.fromContextNode, hnode _ hc.contextPointer]

theorem variableRef (h : w.Holds st st') (c : Context) (name : QName) :
    c.variableRef st name = c.variableRef st' name := by
  simp only [Context.variableRef, Store.scope, h.left.scopes, h.right.scopes]

theorem variableValue? (h : w.Holds st st') (c : Context) (name : QName) :
    Option.Rel (Datum.Alike w) (c.variableValue? st name) (c.variableValue? st' name) := by
  simp only [Context.variableValue?]
  induction c.layers.map (·.scope) with
  | nil => exact .none
  | cons s scopes ih =>
    simp only [List.findSome?_cons, Store.valueOfName?, Store.scope, h.left.scopes, h.right.scopes] at ih ⊢
    cases hs : Variables.get? (w.base.scopes.getD s []) name.written with
    | none => exact ih
    | some slot => exact .some (h.slotValue (w.slot_within (v := ⟨name, some s⟩) hs))

theorem members? (h : w.Holds st st') {p q : Pointer} (hp : p.Alike w q) :
    Option.Rel (PointersAlike w) (p.members? st) (q.members? st') := by
  have hv := h.openedValue hp
  simp only [Pointer.members?, hp.isVariable]
  split
  · generalize p.openedValue st = a, q.openedValue st' = b at hv ⊢
    cases hv with
    | object j => cases j <;> first | exact .none | exact .some (h.children hp)
    | _ => exact .none
  · exact .none

theorem startAt (h : w.Holds st st') {p q : Pointer} (hp : p.Alike w q) :
    (Cursor.startAt st p).Alike w (Cursor.startAt st' q) := ⟨(Stage.Alike.start hp (h.members? hp)).fresh, .nil⟩

end World.Holds

/-! ## §B  Naturality -/

/-- Lists of the same length. -/
def Relation.length : Relation (List Pointer) (List Pointer) := ⟨fun _ ps qs => ps.length = qs.length, fun _ => id⟩

/-- **Queries** says that two cursors answer alike what an expression may ask them. -/
structure Queries (w : World) (L : Link) (lax : Prop) (m n : Motion) : Prop where
  current : WalkAlike w L lax Relation.pointer.option m.current n.current
  listSet : WalkAlike w L lax .length m.listSet n.listSet
  position : ∀ v c d, w.Grows v → L.rel v c d → c.frame.position = d.frame.position

/-- **Answers** are alike answers, as far as an expression is `dependent` on them. -/
def Answers (w : World) (L : Link) (lax : Prop) (m n : Motion) (dependent : Bool) : Prop :=
  dependent = true → Queries w L lax m n

/-- **Natural** says that everything outside of an evaluation answers alike. -/
structure Setting.Natural (w : World) (s : Setting) : Prop where
  context : s.context.Within w.base.documents.size
  host : s.host.Pure
  evaluateIn : ∀ v c text, w.Grows v → c.Within w.base.documents.size →
    EvalAlike v .datum (s.evaluateIn c text) (s.evaluateIn c text)
  pointerIn : ∀ v c text, w.Grows v → c.Within w.base.documents.size →
    EvalAlike v Relation.pointer.option (s.pointerIn c text) (s.pointerIn c text)

/-- **Natural** says that the value of a predicate follows from what it asks a cursor for. -/
structure Surroundings.Natural (w : World) (s : Surroundings) : Prop where
  resolve : ∀ v st st', w.Grows v → v.Holds st st' → s.resolve st = s.resolve st'
  test : ∀ v L lax m n e, w.Grows v → Answers v L lax m n e.isContextDependent →
    WalkAlike v L lax .datum (s.test m e) (s.test n e)

/-- **Natural** says that the values of expressions follow from the answers to what they ask for. -/
structure Evaluator.Natural (w : World) (ev : Evaluator) : Prop where
  setting : ev.setting.Natural w
  surroundings : ev.surroundings.Natural w
  lazy : ∀ v L lax m n e, w.Grows v → Answers v L lax m n e.isContextDependent →
    WalkAlike v L lax .value (ev.lazy m e) (ev.lazy n e)
  value : ∀ v L lax m n e, w.Grows v → Answers v L lax m n e.isContextDependent →
    WalkAlike v L lax .value (ev.value m e) (ev.value n e)

theorem Queries.grow {L : Link} {lax : Prop} {m n : Motion} (hw : w.Grows w') (h : Queries w L lax m n) :
    Queries w' L lax m n where
  current := h.current.grow hw
  listSet := h.listSet.grow hw
  position v c d hv := h.position v c d (hw.trans hv)

/-- Motions that move alike cursors alike answer alike. -/
theorem MotionAlike.queries {m n : Motion} (h : MotionAlike w m n) : Queries w .alike False m n where
  current := h.current
  listSet := h.listSet.mono fun _ _ _ _ hs => hs.length_eq
  position _ _ _ _ hc := hc.frame.position

/-- Reading the frame for its position. -/
theorem Queries.frame_bind {L : Link} {lax : Prop} {m n : Motion} {α β : Type} {S : Relation α β}
    (h : Queries w L lax m n) {f : Frame → Walk α} {g : Frame → Walk β}
    (hfg : ∀ v a b, w.Grows v → a.position = b.position → WalkAlike v L lax S (f a) (g b)) :
    WalkAlike w L lax S (Walk.frame >>= f) (Walk.frame >>= g) := by
  intro v hv c d st st' hL hst
  rw [Walk.runOn_bind, Walk.runOn_bind, Walk.runOn_frame, Walk.runOn_frame]
  exact hfg v c.frame d.frame hv (h.position v c d hv hL) v (.refl v) c d st st' hL hst

theorem Answers.grow {L : Link} {lax : Prop} {m n : Motion} {dependent : Bool} (hw : w.Grows w')
    (h : Answers w L lax m n dependent) : Answers w' L lax m n dependent := fun hd => (h hd).grow hw

/-- What is enough for an expression is enough for a less dependent one. -/
theorem Answers.mono {L : Link} {lax : Prop} {m n : Motion} {a b : Bool} (hab : a = true → b = true)
    (h : Answers w L lax m n b) : Answers w L lax m n a := fun ha => h (hab ha)

/-- What the operands of an operation or a call depend on, the whole depends on. -/
theorem Expr.anyDependent_of_mem {e : Expr} {es : List Expr} (h : e ∈ es) (he : e.isContextDependent = true) :
    Expr.anyDependent es = true := by
  induction es with
  | nil => cases h
  | cons a es ih =>
    rw [Expr.anyDependent, Bool.or_eq_true]
    rcases List.mem_cons.mp h with rfl | h
    · exact .inl he
    · exact .inr (ih h)

/-- A call of a core function depends on what its arguments depend on. -/
theorem Expr.core_dependent_of_mem {f : CoreFunction} {e : Expr} {es : List Expr} (h : e ∈ es)
    (he : e.isContextDependent = true) : (Expr.core f es).isContextDependent = true := by
  have hes := Expr.anyDependent_of_mem h he
  cases f <;> simp [Expr.isContextDependent, hes]

theorem Setting.Natural.grow {s : Setting} (hw : w.Grows w') (h : s.Natural w) : s.Natural w' where
  context := by rw [hw.base]; exact h.context
  host := h.host
  evaluateIn v c text hv := by rw [hw.base]; exact h.evaluateIn v c text (hw.trans hv)
  pointerIn v c text hv := by rw [hw.base]; exact h.pointerIn v c text (hw.trans hv)

theorem Surroundings.Natural.grow {s : Surroundings} (hw : w.Grows w') (h : s.Natural w) : s.Natural w' where
  resolve v st st' hv := h.resolve v st st' (hw.trans hv)
  test v L lax m n e hv := h.test v L lax m n e (hw.trans hv)

theorem Surroundings.Natural.alike {s : Surroundings} (h : s.Natural w) : SurroundingsAlike w s s where
  resolve := h.resolve
  test v m n e hv hmn := h.test v .alike False m n e hv fun _ => hmn.queries

theorem Evaluator.Natural.grow {ev : Evaluator} (hw : w.Grows w') (h : ev.Natural w) : ev.Natural w' where
  setting := h.setting.grow hw
  surroundings := h.surroundings.grow hw
  lazy v L lax m n e hv := h.lazy v L lax m n e (hw.trans hv)
  value v L lax m n e hv := h.value v L lax m n e (hw.trans hv)

namespace Evaluator.Natural

variable {ev : Evaluator} {L : Link} {lax : Prop} {m n : Motion} {e : Expr} {es : List Expr}

/-! ## §C  Cursors -/

theorem on (h : ev.Natural w) {α β : Type} {R : Relation α β} {c d : Cursor} (hc : c.Alike w d)
    {f : Motion → Walk α} {g : Motion → Walk β}
    (hfg : ∀ v m n, w.Grows v → MotionAlike v m n → StepAlike v R (f m) (g n)) :
    EvalAlike w R (ev.on c f) (ev.on d g) :=
  (StepAlike.moving h.surroundings.alike hfg).within hc

theorem first (h : ev.Natural w) {c d : Cursor} (hc : c.Alike w d) :
    EvalAlike w Relation.pointer.option (ev.first c) (ev.first d) := h.on hc fun _ _ _ _ hmn => hmn.first

theorem nodeSet (h : ev.Natural w) {c d : Cursor} (hc : c.Alike w d) :
    EvalAlike w Relation.pointer.list (ev.nodeSet c) (ev.nodeSet d) := h.on hc fun _ _ _ _ hmn => hmn.nodeSet

theorem deliverAll (h : ev.Natural w) {c d : Cursor} (hc : c.Alike w d) :
    EvalAlike w Relation.pointer.list (ev.deliverAll c) (ev.deliverAll d) := h.on hc fun _ _ _ _ hmn => hmn.deliverAll

/-! ## §D  Operands and calls -/

theorem firstOf (h : ev.Natural w) {a b : Value} (hab : a.Alike w b) :
    EvalAlike w .datum (ev.firstOf a) (ev.firstOf b) := by
  cases hab with
  | datum hd => exact .pure hd
  | nodes hc => exact (h.first hc).bind fun _ _ _ _ hp => .pure (Call.ofNode_alike hp)

theorem operand (h : ev.Natural w) (he : Answers w L lax m n e.isContextDependent) :
    WalkAlike w L lax .datum (ev.operand m e) (ev.operand n e) :=
  (h.lazy w L lax m n e (.refl w) he).bind fun _ _ _ hv hab => .monadLift ((h.grow hv).firstOf hab)

theorem plain (h : ev.Natural w) (he : Answers w L lax m n e.isContextDependent) :
    WalkAlike w L lax .datum (ev.plain m e) (ev.plain n e) :=
  (h.value w L lax m n e (.refl w) he).bind fun _ _ _ hv hab => .monadLift ((h.grow hv).firstOf hab)

theorem text (h : ev.Natural w) (he : Answers w L lax m n e.isContextDependent) :
    WalkAlike w L lax (.eq String) (ev.text m e) (ev.text n e) :=
  (h.operand he).bind fun _ _ _ _ hd => .store_bind fun _ _ _ hu hst => .pure (hst.toText (Datum.Alike.grow hu hd))

theorem truth (h : ev.Natural w) (he : Answers w L lax m n e.isContextDependent) :
    WalkAlike w L lax (.eq Bool) (ev.truth m e) (ev.truth n e) :=
  (h.operand he).bind fun _ _ _ _ hd => .store_bind fun _ _ _ hu hst =>
    .pure (hst.toBoolean (Datum.Alike.grow hu hd))

theorem double (h : ev.Natural w) (he : Answers w L lax m n e.isContextDependent) :
    WalkAlike w L lax (.eq Float) (ev.double m e) (ev.double n e) :=
  (h.plain he).bind fun _ _ _ _ hd => .store_bind fun _ _ _ hu hst =>
    .pure (hst.toDouble (Datum.Alike.grow hu hd))

theorem callAt (h : ev.Natural w) {p? q? : Option Pointer} (hp : Option.Rel (Pointer.Alike w) p? q?) (position : Nat) :
    Call.Alike w (ev.callAt p? position) (ev.callAt q? position) where
  context := rfl
  within := h.setting.context
  node := hp
  position := rfl
  evaluate text := h.setting.evaluateIn w _ text (.refl w) h.setting.context
  first _ _ _ hx hc := (h.grow hx).first hc
  nodes _ _ _ hx hc := (h.grow hx).nodeSet hc

theorem call (h : ev.Natural w) (hq : Queries w L lax m n) :
    WalkAlike w L lax .call (ev.call m) (ev.call n) := by
  refine hq.current.bind fun v p? q? hv hp => (hq.grow hv).frame_bind fun u f g hu hf => .pure ?_
  rw [hf]
  exact (h.grow (hv.trans hu)).callAt (Relation.pointer.option.grow hu hp) _

theorem action (h : ev.Natural w) (i : Implementation) : (ev.action i).Pure := by
  cases i with
  | builtin b => exact b.pure
  | hosted handle => exact h.setting.host handle

theorem callFunction (h : ev.Natural w) (hq : Queries w L lax m n) (name : QName) (args : List Expr) :
    WalkAlike w L lax .value (ev.callFunction m name args) (ev.callFunction n name args) := by
  simp only [Evaluator.callFunction]
  split
  · exact .throw _
  · refine (WalkAlike.mapM fun e _ => h.lazy w L lax m n e (.refl w) fun _ => hq).bind fun v vs vs' hv hs => ?_
    refine ((h.grow hv).call (hq.grow hv)).bind fun u a b hu hab => ?_
    exact .monadLift (h.action _ u a b vs vs' hab (Relation.value.list.grow hu hs))

/-! ## §E  Operations -/

theorem anyIs (h : ev.Natural w) (decisive : Bool) (he : ∀ e ∈ es, Answers w L lax m n e.isContextDependent) :
    WalkAlike w L lax (.eq Bool) (ev.anyIs m decisive es) (ev.anyIs n decisive es) := by
  induction es generalizing w with
  | nil => exact .pure rfl
  | cons e es ih =>
    obtain ⟨he, hes⟩ := List.forall_mem_cons.mp he
    refine (h.truth he).bind ?_
    rintro v b _ hv rfl
    exact .ite Iff.rfl (.pure rfl) (ih (h.grow hv) fun e' he' => (hes e' he').grow hv)

theorem sumOf (h : ev.Natural w) (total : Float) (he : ∀ e ∈ es, Answers w L lax m n e.isContextDependent) :
    WalkAlike w L lax (.eq Float) (ev.sumOf m total es) (ev.sumOf n total es) := by
  induction es generalizing w total with
  | nil => exact .pure rfl
  | cons e es ih =>
    obtain ⟨he, hes⟩ := List.forall_mem_cons.mp he
    refine (h.double he).bind ?_
    rintro v x _ hv rfl
    exact ih (h.grow hv) _ fun e' he' => (hes e' he').grow hv

theorem sideOf (h : ev.Natural w) {a b : Value} (hab : a.Alike w b) :
    EvalAlike w .operand (ev.sideOf a) (ev.sideOf b) := by
  cases hab with
  | nodes hc =>
    exact (h.nodeSet hc).bind fun _ _ _ _ hs => .get_bind fun _ _ _ hu hst =>
      .pure (hst.ofNodes (PointersAlike.grow hu hs))
  | datum hd => exact .get_bind fun _ _ _ hv hst => .pure (hst.ofDatum (hd.grow hv))

theorem onBoth (h : ev.Natural w) (op : Operator) {a b a' b' : Value} (ha : a.Alike w a') (hb : b.Alike w b') :
    EvalAlike w .datum (ev.onBoth op a b) (ev.onBoth op a' b') := by
  simp only [Evaluator.onBoth]
  split
  · refine (h.firstOf ha).bind fun v x x' hv hx => ((h.grow hv).firstOf (hb.grow hv)).bind fun u y y' hu hy => ?_
    refine .get_bind fun z st st' hz hst => .pure ?_
    rw [hst.toDouble (Datum.Alike.grow (hu.trans hz) hx), hst.toDouble (Datum.Alike.grow hz hy)]
    exact .number _
  · refine (h.sideOf ha).bind fun v x x' hv hx => ((h.grow hv).sideOf (hb.grow hv)).bind fun u y y' hu hy => ?_
    refine .get_bind fun z st st' hz hst => ?_
    rw [hst.compareBy op (Operand.Alike.grow (hu.trans hz) hx) (Operand.Alike.grow hz hy)]
    split
    · exact .pure (.boolean _)
    · exact .throw _

theorem unionNodes (h : ev.Natural w) (he : Answers w L lax m n e.isContextDependent) :
    WalkAlike w L lax Relation.pointer.list (ev.unionNodes m e) (ev.unionNodes n e) := by
  refine (h.lazy w L lax m n e (.refl w) he).bind fun v a b hv hab => ?_
  cases hab with
  | nodes hc => exact .monadLift ((h.grow hv).nodeSet hc)
  | datum hd =>
    cases hd with
    | pointer hp => exact .pure (.cons hp .nil)
    | null => exact .pure .nil
    | _ => exact .throw _

/-- Sorting, as a part of a walk. -/
theorem sorted {ps qs : List Pointer} (hs : PointersAlike w ps qs) (order : Order) (hst : w.Holds st st') :
    WalkAlike w L lax Relation.pointer.list (Walk.ofExcept (sortDistinct st ps order))
      (Walk.ofExcept (sortDistinct st' qs order)) := .ofExcept (hst.sortDistinct hs order)

theorem unionOf (h : ev.Natural w) (he : ∀ e ∈ es, Answers w L lax m n e.isContextDependent) :
    WalkAlike w L lax .cursor (ev.unionOf m es) (ev.unionOf n es) := by
  refine (WalkAlike.mapM fun e hmem => h.unionNodes (he e hmem)).bind fun v ps qs hv hs => ?_
  refine .store_bind fun u st st' hu hst => ?_
  have hflat : PointersAlike v ps.flatten qs.flatten := by
    induction hs with
    | nil => exact .nil
    | cons hp _ ih => exact PointersAlike.append hp ih
  exact (sorted (hflat.grow hu) .ascending hst).bind fun _ _ _ _ hr => .pure (.ofNodes hr _)

/-- An operation that looks at two operands. -/
theorem onTwo (h : ev.Natural w) (op : Operator) {l r : Expr} (hl : Answers w L lax m n l.isContextDependent)
    (hr : Answers w L lax m n r.isContextDependent) :
    WalkAlike w L lax .value
      (do
        let l ← ev.lazy m l
        let r ← ev.lazy m r
        pure (.datum (← ev.onBoth op l r)))
      (do
        let l ← ev.lazy n l
        let r ← ev.lazy n r
        pure (.datum (← ev.onBoth op l r))) := by
  refine (h.lazy w L lax m n l (.refl w) hl).bind fun v a a' hv ha => ?_
  refine (h.lazy v L lax m n r hv (hr.grow hv)).bind fun u b b' hu hb => ?_
  exact (WalkAlike.monadLift ((h.grow (hv.trans hu)).onBoth op (Value.Alike.grow hu ha) hb)).bind
    fun _ _ _ _ hd => .pure (.datum hd)

theorem operation (h : ev.Natural w) (op : Operator) (he : ∀ e ∈ es, Answers w L lax m n e.isContextDependent) :
    WalkAlike w L lax .value (ev.operation m op es) (ev.operation n op es) := by
  unfold Evaluator.operation
  split
  · exact (h.anyIs false he).bind fun _ _ _ _ hb => .pure (by cases hb; exact .datum (.boolean _))
  · exact (h.anyIs true he).bind fun _ _ _ _ hb => .pure (by cases hb; exact .datum (.boolean _))
  · exact (h.unionOf he).bind fun _ _ _ _ hc => .pure (.nodes hc)
  · exact (h.double (he _ List.mem_cons_self)).bind fun _ _ _ _ hx => .pure (by cases hx; exact .datum (.number _))
  · exact .throw _
  · exact (h.sumOf 0 he).bind fun _ _ _ _ hx => .pure (by cases hx; exact .datum (.number _))
  · exact h.onTwo _ (he _ List.mem_cons_self) (he _ (List.mem_cons_of_mem _ List.mem_cons_self))
  · exact .throw _

/-! ## §F  Paths -/

theorem startOf (h : ev.Natural w) {a b : Value} (hab : a.Alike w b) :
    EvalAlike w .cursor (ev.startOf a) (ev.startOf b) := by
  cases hab with
  | nodes hc =>
    refine (h.nodeSet hc).bind fun v ps qs hv hs => .get_bind fun u st st' hu hst => ?_
    have hr := hst.sortDistinct (PointersAlike.grow hu hs) .ascending
    generalize sortDistinct st ps .ascending = r, sortDistinct st' qs .ascending = r' at hr ⊢
    cases hr with
    | ok hr => exact .pure (.ofNodes hr _)
    | error e => exact .throw e
  | datum hd =>
    have hwrap : ∀ {d d' : Datum}, d.Alike w d' → EvalAlike w .cursor
        (do let p ← Pointer.wrap d; pure (.startAt (← get) p))
        (do let p ← Pointer.wrap d'; pure (.startAt (← get) p)) := fun hd =>
      (EvalAlike.wrap hd).bind fun _ _ _ _ hp => .get_bind fun _ _ _ hu hst =>
        .pure (hst.startAt (Pointer.Alike.grow hu hp))
    cases hd with
    | null => exact .pure .empty
    | boolean b => exact hwrap (.boolean b)
    | number x => exact hwrap (.number x)
    | text s => exact hwrap (.text s)
    | object j => exact hwrap (.object j)
    | pointer hp => exact hwrap (.pointer hp)

theorem locationPath (h : ev.Natural w) (absolute : Bool) (steps : List Step)
    (hq : absolute = false → Queries w L lax m n) :
    WalkAlike w L lax .cursor (ev.locationPath m absolute steps) (ev.locationPath n absolute steps) := by
  have hrest : ∀ v (p? q? : Option Pointer), w.Grows v → Option.Rel (Pointer.Alike v) p? q? →
      WalkAlike v L lax .cursor
        (do let st ← Walk.store; pure (((p?.map (Cursor.startAt st)).getD .empty).pushSteps steps))
        (do let st ← Walk.store; pure (((q?.map (Cursor.startAt st)).getD .empty).pushSteps steps)) := by
    intro v p? q? hv hp
    refine .store_bind fun u st st' hu hst => .pure ?_
    cases hp with
    | none => exact Cursor.Alike.empty.pushSteps steps
    | some hp => exact (hst.startAt (Pointer.Alike.grow hu hp)).pushSteps steps
  cases absolute with
  | true => exact hrest w _ _ (.refl w) (.some (Pointer.Within.alike h.setting.context.rootPointer))
  | false => exact (hq rfl).current.bind hrest

theorem filterPath (h : ev.Natural w) {head : Expr} (predicates : List Expr) (steps : List Step)
    (he : Answers w L lax m n head.isContextDependent) :
    WalkAlike w L lax .cursor (ev.filterPath m head predicates steps) (ev.filterPath n head predicates steps) :=
  (h.lazy w L lax m n head (.refl w) he).bind fun _ _ _ hv hab =>
    (WalkAlike.monadLift ((h.grow hv).startOf hab)).bind fun _ _ _ _ hc =>
      .pure ((Cursor.Alike.pushConditions hc predicates).pushSteps steps)

theorem firstNode (h : ev.Natural w) {f g : Walk Cursor} (hfg : WalkAlike w L lax .cursor f g) :
    WalkAlike w L lax .value (ev.firstNode f) (ev.firstNode g) :=
  hfg.bind fun _ _ _ hv hc => (WalkAlike.monadLift ((h.grow hv).firstOf (.nodes hc))).bind
    fun _ _ _ _ hd => .pure (.datum hd)

/-! ## §G  Core functions -/

theorem countOf (h : ev.Natural w) {a b : Value} (hab : a.Alike w b) :
    EvalAlike w (.eq Nat) (ev.countOf a) (ev.countOf b) := by
  cases hab with
  | nodes hc => exact (h.deliverAll hc).bind fun _ _ _ _ hs => .pure hs.length_eq
  | datum hd =>
    cases hd with
    | pointer hp =>
      refine .get_bind fun v st st' hv hst => ?_
      have hp := hp.grow hv
      have ho := hst.openedValue hp
      rw [hst.isOpenedActual hp]
      generalize Pointer.openedValue _ st = d, Pointer.openedValue _ st' = d' at ho ⊢
      cases ho with
      | object j => cases j <;> exact .pure rfl
      | _ => exact .pure rfl
    | object j => cases j <;> exact .pure rfl
    | _ => exact .pure rfl

theorem pointerAlong (h : ev.Natural w) (template value : String) :
    EvalAlike w Relation.pointer.option (ev.pointerAlong template value) (ev.pointerAlong template value) :=
  h.setting.pointerIn w _ _ (.refl w) (h.setting.context.setLenient true)

/-- **Managers of the host program** are pure like its functions. -/
theorem ask (h : ev.Natural w) (handle : String) {ds ds' : List Datum} (hs : List.Forall₂ (Datum.Alike w) ds ds') :
    EvalAlike w .value (ev.ask handle ds) (ev.ask handle ds') := by
  refine h.setting.host handle w _ _ _ _ (h.callAt .none 0) ?_
  induction hs with
  | nil => exact .nil
  | cons hd _ ih => exact .cons (.datum hd) ih

theorem askPointer (h : ev.Natural w) (handle : String) {ds ds' : List Datum}
    (hs : List.Forall₂ (Datum.Alike w) ds ds') :
    EvalAlike w Relation.pointer.option (ev.askPointer handle ds) (ev.askPointer handle ds') := by
  refine (h.ask handle hs).bind fun v a b hv hab => ((h.grow hv).firstOf hab).bind fun _ _ _ _ hd => ?_
  cases hd with
  | pointer hp => exact .pure (.some hp)
  | _ => exact .pure .none

theorem askPointers (h : ev.Natural w) (handle : String) {ds ds' : List Datum}
    (hs : List.Forall₂ (Datum.Alike w) ds ds') :
    EvalAlike w Relation.pointer.list (ev.askPointers handle ds) (ev.askPointers handle ds') := by
  refine (h.ask handle hs).bind fun v a b hv hab => ?_
  cases hab with
  | nodes hc => exact (h.grow hv).deliverAll hc
  | datum hd =>
    cases hd with
    | pointer hp => exact .pure (.cons hp .nil)
    | _ => exact .pure .nil

theorem pointerByKey (h : ev.Natural w) (key value : String) :
    EvalAlike w Relation.pointer.option (ev.pointerByKey key value) (ev.pointerByKey key value) := by
  simp only [Evaluator.pointerByKey]
  split
  · exact .throw _
  · split
    · exact .pure .none
    · exact h.pointerAlong _ _
  · exact h.askPointer _ (.cons (.text key) (.cons (.text value) .nil))

theorem nodesByKey (h : ev.Natural w) (key : String) {d d' : Datum} (hd : d.Alike w d') :
    EvalAlike w Relation.pointer.list (ev.nodesByKey key d) (ev.nodesByKey key d') := by
  simp only [Evaluator.nodesByKey]
  split
  · exact h.askPointers _ (.cons (.text key) (.cons hd .nil))
  · refine .get_bind fun v st st' hv hst => ?_
    rw [hst.toText (hd.grow hv)]
    exact ((h.grow hv).pointerByKey key _).bind fun _ _ _ _ hp => .pure (PointersAlike.ofOption hp)

theorem pointerById (h : ev.Natural w) (id : String) :
    EvalAlike w Relation.pointer.option (ev.pointerById id) (ev.pointerById id) := by
  simp only [Evaluator.pointerById]
  split
  · exact .throw _
  · exact h.pointerAlong _ _
  · exact h.askPointer _ (.cons (.text id) .nil)

theorem keyed (h : ev.Natural w) (key : String) {a b : Value} (hab : a.Alike w b) :
    EvalAlike w Relation.pointer.list (ev.keyed key a) (ev.keyed key b) := by
  cases hab with
  | nodes hc =>
    refine h.on hc fun v m n hv hmn => ?_
    refine (WalkAlike.collectAll (R := Relation.pointer.list) ?_).bind fun u ps qs hu hs => .pure ?_
    · refine hmn.deliver.bind fun u p? q? hu hp => ?_
      cases hp with
      | none => exact .pure .none
      | some hp =>
        refine WalkAlike.store_bind fun x st st' hx hst => ?_
        rw [hst.toText (.pointer (hp.grow hx))]
        exact (WalkAlike.monadLift ((h.grow (hv.trans (hu.trans hx))).nodesByKey key (.text _))).bind
          fun _ _ _ _ hs => .pure (.some hs)
    · induction hs with
      | nil => exact .nil
      | cons hp _ ih => exact PointersAlike.append hp ih
  | datum hd => exact h.nodesByKey key hd

/-- Arguments of a function that reads the context node when it has none. -/
structure Arguments (w : World) (L : Link) (lax : Prop) (m n : Motion) (es : List Expr) : Prop where
  empty : es = [] → Queries w L lax m n
  each : ∀ e ∈ es, Answers w L lax m n e.isContextDependent

theorem subject (h : ev.Natural w) (he : Arguments w L lax m n es) :
    WalkAlike w L lax Relation.pointer.option (ev.subject m es) (ev.subject n es) := by
  cases es with
  | nil => exact (he.empty rfl).current
  | cons e es =>
    refine (h.operand (he.each e List.mem_cons_self)).bind fun v d d' hv hd => ?_
    cases hd with
    | pointer hp => exact .pure (.some hp)
    | _ => exact .pure .none

theorem nodeText (h : ev.Natural w) (he : Arguments w L lax m n es) {f : Pointer → Store → String}
    (hf : ∀ {v st st' p q}, World.Holds v st st' → Pointer.Alike v p q → f p st = f q st') :
    WalkAlike w L lax .value (ev.nodeText m es f) (ev.nodeText n es f) := by
  refine (h.subject he).bind fun v p? q? hv hp => .store_bind fun u st st' hu hst => .pure ?_
  cases hp with
  | none => exact .datum (.text _)
  | some hp =>
    simp only [Option.map_some, hf hst (hp.grow hu)]
    exact .datum (.text _)

theorem subjectValue (h : ev.Natural w) (he : Arguments w L lax m n es) :
    WalkAlike w L lax .datum (ev.subjectValue m es) (ev.subjectValue n es) := by
  cases es with
  | nil => exact (he.empty rfl).current.bind fun _ _ _ _ hp => .pure (Call.ofNode_alike hp)
  | cons e es => exact h.operand (he.each e List.mem_cons_self)

theorem chars (h : ev.Natural w) (he : Answers w L lax m n e.isContextDependent) :
    WalkAlike w L lax (.eq (List Char)) (ev.chars m e) (ev.chars n e) :=
  (h.text he).bind fun _ _ _ _ hs => .pure (by cases hs; rfl)

theorem testTexts (h : ev.Natural w) {e₁ e₂ : Expr} (h₁ : Answers w L lax m n e₁.isContextDependent)
    (h₂ : Answers w L lax m n e₂.isContextDependent) (test : List Char → List Char → Bool) :
    WalkAlike w L lax .value (ev.testTexts m e₁ e₂ test) (ev.testTexts n e₁ e₂ test) :=
  (h.chars h₁).bind fun _ _ _ hv hs => ((h.grow hv).chars (h₂.grow hv)).bind fun _ _ _ _ ht =>
    .pure (by cases hs; cases ht; exact .datum (.boolean _))

theorem partOf (h : ev.Natural w) {e₁ e₂ : Expr} (h₁ : Answers w L lax m n e₁.isContextDependent)
    (h₂ : Answers w L lax m n e₂.isContextDependent) (part : List Char → List Char → List Char) :
    WalkAlike w L lax .value (ev.partOf m e₁ e₂ part) (ev.partOf n e₁ e₂ part) :=
  (h.chars h₁).bind fun _ _ _ hv hs => ((h.grow hv).chars (h₂.grow hv)).bind fun _ _ _ _ ht =>
    .pure (by cases hs; cases ht; exact .datum (.text _))

theorem concat (h : ev.Natural w) (he : ∀ e ∈ es, Answers w L lax m n e.isContextDependent) :
    WalkAlike w L lax .value (ev.concat m es) (ev.concat n es) := by
  refine (WalkAlike.mapM fun e hmem => h.text (he e hmem)).bind fun v ss ss' hv hs => .pure ?_
  obtain rfl : ss = ss' := List.forall₂_eq_eq_eq.le _ _ hs
  exact .datum (.text _)

theorem sliced (part? : Option (List Char)) :
    WalkAlike w L lax .value (Evaluator.sliced part?) (Evaluator.sliced part?) := by
  cases part? with
  | none => exact .throw _
  | some part => exact .pure (.datum (.text _))

theorem substring (h : ev.Natural w) {position : Expr} {length : Option Expr}
    (he : Answers w L lax m n e.isContextDependent) (hp : Answers w L lax m n position.isContextDependent)
    (hl : ∀ e ∈ length, Answers w L lax m n e.isContextDependent) :
    WalkAlike w L lax .value (ev.substring m e position length) (ev.substring n e position length) := by
  refine (h.chars he).bind fun v s s' hv hs => ((h.grow hv).double (hp.grow hv)).bind fun u x x' hu hx => ?_
  cases hs
  cases hx
  cases length with
  | none => exact sliced _
  | some e =>
    have hwu := hv.trans hu
    have hlength : WalkAlike u L lax (.eq (Option Float)) (some <$> ev.double m e) (some <$> ev.double n e) := by
      simp only [← bind_pure_comp]
      exact ((h.grow hwu).double ((hl e rfl).grow hwu)).bind fun _ _ _ _ hx => .pure (by cases hx; rfl)
    refine hlength.bind fun _ _ _ _ hx => ?_
    cases hx
    exact sliced _

theorem translate (h : ev.Natural w) {old new : Expr} (he : Answers w L lax m n e.isContextDependent)
    (ho : Answers w L lax m n old.isContextDependent) (hn : Answers w L lax m n new.isContextDependent) :
    WalkAlike w L lax .value (ev.translate m e old new) (ev.translate n e old new) := by
  refine (h.chars he).bind fun v s s' hv hs => ((h.grow hv).chars (ho.grow hv)).bind fun u t t' hu ht => ?_
  have hwu := hv.trans hu
  refine ((h.grow hwu).chars (hn.grow hwu)).bind fun x r r' hx hr => .pure ?_
  cases hs
  cases ht
  cases hr
  exact .datum (.text _)

theorem foldl_toDouble (h : w.Holds st st') {ds ds' : List Datum} (hs : DataAlike w ds ds') (x : Float) :
    ds.foldl (fun n d => n + d.toDouble st) x = ds'.foldl (fun n d => n + d.toDouble st') x := by
  induction hs generalizing x with
  | nil => rw [List.foldl_nil, List.foldl_nil]
  | cons hd _ ih =>
    rw [List.foldl_cons, List.foldl_cons, h.toDouble hd]
    exact ih _

theorem total (h : w.Holds st st') {ds ds' : List Datum} (hs : DataAlike w ds ds') :
    Evaluator.total st ds = Evaluator.total st' ds' := foldl_toDouble h hs _

theorem summands (h : ev.Natural w) {a b : Value} (hab : a.Alike w b) :
    EvalAlike w Relation.datum.list (ev.summands a) (ev.summands b) := by
  cases hab with
  | nodes hc =>
    exact (h.deliverAll hc).bind fun _ _ _ _ hs => .get_bind fun _ _ _ hu hst =>
      .pure (hst.openedValues (PointersAlike.grow hu hs))
  | datum hd =>
    cases hd with
    | pointer hp =>
      refine .get_bind fun v st st' hv hst => ?_
      have ho := hst.openedValue (hp.grow hv)
      generalize Pointer.openedValue _ st = d, Pointer.openedValue _ st' = d' at ho ⊢
      cases ho with
      | object j => cases j <;> first | exact .throw _ | exact .pure (DataAlike.ofJson _ _)
      | _ => exact .throw _
    | object j => cases j <;> first | exact .throw _ | exact .pure (DataAlike.ofJson _ _)
    | _ => exact .throw _

theorem symbols (h : ev.Natural w) {format : Option Expr}
    (hf : ∀ e ∈ format, Answers w L lax m n e.isContextDependent) :
    WalkAlike w L lax (.eq DecimalSymbols) (ev.symbols m format) (ev.symbols n format) := by
  cases format with
  | none => exact .pure rfl
  | some e =>
    refine (h.plain (hf e rfl)).bind fun v d d' hv hd => .store_bind fun u st st' hu hst => ?_
    rw [hst.toText (Datum.Alike.grow hu hd)]
    dsimp only
    split
    · exact .pure rfl
    · exact .throw _

theorem formatNumber (h : ev.Natural w) {pattern : Expr} {format : Option Expr}
    (he : Answers w L lax m n e.isContextDependent) (hp : Answers w L lax m n pattern.isContextDependent)
    (hf : ∀ e ∈ format, Answers w L lax m n e.isContextDependent) :
    WalkAlike w L lax .value (ev.formatNumber m e pattern format) (ev.formatNumber n e pattern format) := by
  refine (h.double he).bind fun v x x' hv hx => ((h.grow hv).text (hp.grow hv)).bind fun u s s' hu hs => ?_
  have hwu := hv.trans hu
  refine ((h.grow hwu).symbols fun e he => (hf e he).grow hwu).bind fun z t t' hz ht => ?_
  cases hx
  cases hs
  cases ht
  split
  · exact .pure (.datum (.text _))
  · exact .throw _

theorem lang (h : ev.Natural w) (hq : Queries w L lax m n) (e : Expr) :
    WalkAlike w L lax .value (ev.lang m e) (ev.lang n e) := by
  refine (h.chars fun _ => hq).bind fun v s s' hv hs => (hq.grow hv).current.bind fun u p? q? hu hp => ?_
  cases hs
  cases hp with
  | none => exact .pure (.datum (.boolean _))
  | some hp =>
    refine .store_bind fun x st st' hx hst => .pure ?_
    simp only [Evaluator.languageOf, hst.language (hp.grow hx)]
    exact .datum (.boolean _)

/-- A core function answers alike when the cursors answer what it depends on. -/
theorem coreValue (h : ev.Natural w) (f : CoreFunction)
    (hf : Answers w L lax m n (Expr.core f es).isContextDependent) :
    WalkAlike w L lax .value (ev.coreValue m f es) (ev.coreValue n f es) := by
  have each : ∀ e ∈ es, Answers w L lax m n e.isContextDependent := fun e hmem =>
    hf.mono (Expr.core_dependent_of_mem hmem)
  have reads : Expr.readsContextNode f = true → Arguments w L lax m n es := fun hr =>
    ⟨fun hes => hf (by subst hes; cases f <;> simp_all [Expr.isContextDependent, Expr.readsContextNode]), each⟩
  unfold Evaluator.coreValue
  split
  · exact (hf rfl).listSet.bind fun _ _ _ _ hs => .pure (by rw [hs]; exact .datum (.number _))
  · exact (hf rfl).frame_bind fun _ _ _ _ hp => .pure (by rw [hp]; exact .datum (.number _))
  · refine (h.lazy w L lax m n _ (.refl w) (each _ (by simp))).bind fun v a b hv hab => ?_
    exact (WalkAlike.monadLift ((h.grow hv).countOf hab)).bind fun _ _ _ _ hn => .pure (by rw [hn]; exact .datum (.number _))
  · refine (h.text (each _ (by simp))).bind fun v s t hv hs => ?_
    cases hs
    exact (WalkAlike.monadLift ((h.grow hv).pointerById s)).bind fun _ _ _ _ hp => .pure (.datum (Call.ofNode_alike hp))
  · rename_i e₁ e₂
    refine (h.plain (each e₁ (by simp))).bind fun v d d' hv hd => .store_bind fun u st st' hu hst => ?_
    have hwu := hv.trans hu
    rw [hst.toText (Datum.Alike.grow hu hd)]
    refine (h.lazy u L lax m n e₂ hwu ((each e₂ (by simp)).grow hwu)).bind fun x a b hx hab => ?_
    exact (WalkAlike.monadLift ((h.grow (hwu.trans hx)).keyed _ hab)).bind fun _ _ _ _ hs =>
      .pure (.nodes (.ofNodes (PointersAlike.distinct hs) _))
  · exact h.nodeText (reads rfl) fun hst hp => by rw [hst.name hp]
  · exact h.nodeText (reads rfl) fun hst hp => by rw [hst.name hp]
  · exact h.nodeText (reads rfl) fun hst hp => by rw [hst.namespaceUri hp]
  · exact (h.subjectValue (reads rfl)).bind fun _ _ _ _ hd => .store_bind fun _ _ _ hu hst =>
      .pure (by rw [hst.toText (Datum.Alike.grow hu hd)]; exact .datum (.text _))
  · exact (h.subjectValue (reads rfl)).bind fun _ _ _ _ hd => .store_bind fun _ _ _ hu hst =>
      .pure (by rw [hst.toNumber (Datum.Alike.grow hu hd)]; exact .datum (.number _))
  · exact (h.subjectValue (reads rfl)).bind fun _ _ _ _ hd => .store_bind fun _ _ _ hu hst =>
      .pure (by rw [hst.toText (Datum.Alike.grow hu hd)]; exact .datum (.number _))
  · exact h.concat each
  · exact h.testTexts (each _ (by simp)) (each _ (by simp)) _
  · exact h.testTexts (each _ (by simp)) (each _ (by simp)) _
  · exact h.testTexts (each _ (by simp)) (each _ (by simp)) _
  · exact h.partOf (each _ (by simp)) (each _ (by simp)) _
  · exact h.partOf (each _ (by simp)) (each _ (by simp)) _
  · exact h.substring (each _ (by simp)) (each _ (by simp)) (by simp)
  · exact h.substring (each _ (by simp)) (each _ (by simp)) (by simpa using each _ (by simp))
  · exact (h.chars (each _ (by simp))).bind fun _ _ _ _ hs => .pure (by cases hs; exact .datum (.text _))
  · exact h.translate (each _ (by simp)) (each _ (by simp)) (each _ (by simp))
  · exact (h.truth (each _ (by simp))).bind fun _ _ _ _ hb => .pure (by cases hb; exact .datum (.boolean _))
  · exact (h.truth (each _ (by simp))).bind fun _ _ _ _ hb => .pure (by cases hb; exact .datum (.boolean _))
  · exact .pure (.datum (.boolean _))
  · exact .pure (.datum (.boolean _))
  · exact .pure (.datum .null)
  · exact h.lang (hf rfl) _
  · refine (h.lazy w L lax m n _ (.refl w) (each _ (by simp))).bind fun v a b hv hab => ?_
    refine (WalkAlike.monadLift ((h.grow hv).summands hab)).bind fun u ds ds' hu hs => ?_
    refine .store_bind fun x st st' hx hst => .pure ?_
    rw [total hst (Relation.datum.list.grow hx hs)]
    exact .datum (.number _)
  · exact (h.double (each _ (by simp))).bind fun _ _ _ _ hx => .pure (by cases hx; exact .datum (.number _))
  · exact (h.double (each _ (by simp))).bind fun _ _ _ _ hx => .pure (by cases hx; exact .datum (.number _))
  · exact (h.double (each _ (by simp))).bind fun _ _ _ _ hx => .pure (by cases hx; exact .datum (.number _))
  · exact h.formatNumber (each _ (by simp)) (each _ (by simp)) (by simp)
  · exact h.formatNumber (each _ (by simp)) (each _ (by simp)) (by simpa using each _ (by simp))
  · exact .throw _

theorem callCore (h : ev.Natural w) (f : CoreFunction)
    (hf : Answers w L lax m n (Expr.core f es).isContextDependent) :
    WalkAlike w L lax .value (ev.callCore m f es) (ev.callCore n f es) :=
  .ite Iff.rfl (h.coreValue f hf) (.throw _)

/-! ## §H  Every depth -/

/-- The plain value of an expression. -/
theorem valueOf (h : ev.Natural w) (he : Answers w L lax m n e.isContextDependent) :
    WalkAlike w L lax .value (ev.valueOf m e) (ev.valueOf n e) := by
  cases e with
  | number x => exact .pure (.datum (.number x))
  | text s => exact .pure (.datum (.text s))
  | var name =>
    refine .store_bind fun v st st' hv hst => ?_
    have hd := hst.variableValue? ev.context name
    generalize ev.context.variableValue? st name = d?, ev.context.variableValue? st' name = d'? at hd ⊢
    cases hd with
    | none => exact .throw _
    | some hd => exact .pure (.datum hd)
  | operation op args => exact h.operation op fun e hmem => he.mono (Expr.anyDependent_of_mem hmem)
  | core f args => exact h.callCore f he
  | call name args => exact h.callFunction (he rfl) name args
  | path absolute steps =>
    exact h.firstNode (h.locationPath absolute steps fun ha => he (by simp [Expr.isContextDependent, ha]))
  | filter head predicates steps =>
    exact h.firstNode (h.filterPath predicates steps (he.mono fun hd => by simp [Expr.isContextDependent, hd]))

/-- The value in which node-sets are cursors. -/
theorem lazyValueOf (h : ev.Natural w) (he : Answers w L lax m n e.isContextDependent) :
    WalkAlike w L lax .value (ev.lazyValueOf m e) (ev.lazyValueOf n e) := by
  cases e with
  | var name =>
    refine .store_bind fun v st st' hv hst => .pure ?_
    rw [hst.variableRef]
    exact .datum (.pointer (.var _))
  | path absolute steps =>
    exact (h.locationPath absolute steps fun ha => he (by simp [Expr.isContextDependent, ha])).bind
      fun _ _ _ _ hc => .pure (.nodes hc)
  | filter head predicates steps =>
    exact (h.filterPath predicates steps (he.mono fun hd => by simp [Expr.isContextDependent, hd])).bind
      fun _ _ _ _ hc => .pure (.nodes hc)
  | number x => exact h.valueOf he
  | text s => exact h.valueOf he
  | operation op args => exact h.valueOf he
  | core f args => exact h.valueOf he
  | call name args => exact h.valueOf he

/-- One level more. -/
theorem next (h : ev.Natural w) : ev.next.Natural w where
  setting := h.setting
  surroundings := h.surroundings
  lazy _ _ _ _ _ _ hv he := (h.grow hv).lazyValueOf he
  value _ _ _ _ _ _ hv he := (h.grow hv).valueOf he

end Evaluator.Natural

namespace Setting.Natural

variable {s : Setting}

/-- **Expressions are evaluated alike**, by the evaluators of every depth. -/
theorem evaluatorTo (h : s.Natural w) {around : Surroundings} (haround : around.Natural w) (depth : Nat) :
    (s.evaluatorTo around depth).Natural w := by
  induction depth with
  | zero => exact ⟨h, haround, fun _ _ _ _ _ _ _ _ => .throw _, fun _ _ _ _ _ _ _ _ => .throw _⟩
  | succ depth ih => exact ih.next

theorem resolve (h : s.Natural w) {v : World} {st st' : Store} (hv : w.Grows v) (hst : v.Holds st st') :
    s.context.addressOf st = s.context.addressOf st' := by
  funext label
  exact hst.contextAddressOf (by rw [hv.base]; exact h.context) label

/-- **Predicates are answered alike**, in the surroundings of every depth. -/
theorem surroundingsTo (h : s.Natural w) (depth : Nat) : (s.surroundingsTo depth).Natural w := by
  induction depth with
  | zero => exact ⟨fun _ _ _ hv hst => h.resolve hv hst, fun _ _ _ _ _ _ _ _ => .throw _⟩
  | succ depth ih =>
    refine ⟨fun _ _ _ hv hst => h.resolve hv hst, fun v L lax m n e hv he => ?_⟩
    have hev := (h.evaluatorTo ih e.size).grow hv
    exact (hev.value v L lax m n e (.refl v) he).bind fun u a b hu hab => .monadLift ((hev.grow hu).firstOf hab)

theorem surroundings (h : s.Natural w) : s.surroundings.Natural w := by
  unfold Setting.surroundings
  exact h.surroundingsTo _

theorem evaluator (h : s.Natural w) (e : Expr) : (s.evaluator e).Natural w := h.evaluatorTo h.surroundings _

theorem predicateEvaluator (h : s.Natural w) (e : Expr) : (s.predicateEvaluator e).Natural w := by
  unfold Setting.predicateEvaluator Setting.inner
  exact h.evaluatorTo (h.surroundingsTo _) _

end Setting.Natural

end NodePath
