/-
# NodePath.Proofs.AgreedMotion — cursors move in agreement

When the stages before the last one move in agreement, and predicates are answered so, the last one does, too. So
cursors of any length do, and so is what is pulled from them.

* §A  `Motion.Agree` and `Surroundings.Agree`.
* §B  Sets.
* §C  Nodes.
* §D  Positions, and motions of any length.
* §E  Delivery.
-/
import NodePath.Cursor.Delivery
import NodePath.Proofs.Agreement

namespace NodePath

variable {r : Regime} {s t : Surroundings} {m n : Motion}

/-! ## §A  Motions -/

/-- **Agree** says that two motions move every cursor in the same way. -/
structure Motion.Agree (r : Regime) (m n : Motion) : Prop where
  nextSet : WalkAgree r m.nextSet n.nextSet
  nextNode : WalkAgree r m.nextNode n.nextNode
  setPosition : ∀ i, WalkAgree r (m.setPosition i) (n.setPosition i)
  current : WalkAgree r m.current n.current

/-- **Agree** says that labels are resolved the same, and predicates answered the same. -/
structure Surroundings.Agree (r : Regime) (s t : Surroundings) : Prop where
  resolve : ∀ st, r.good st → t.resolve st = s.resolve st
  test : ∀ {m n}, Motion.Agree r m n → ∀ e, WalkAgree r (s.test m e) (t.test n e)

namespace Motion.Agree

theorem still : Motion.Agree r .still .still := ⟨.pure _, .pure _, fun _ => .pure _, .pure _⟩

/-! ## §B  Sets -/

theorem enter (h : m.Agree r n) : WalkAgree r m.enter n.enter := by
  refine .repeatUntil (h.nextSet.bind fun _ => .ite (.pure _) ?_)
  exact h.nextNode.bind fun _ => .ite (.pure _) (.pure _)

theorem nextOrigin (h : m.Agree r n) (started : Bool) :
    WalkAgree r (m.nextOrigin started) (n.nextOrigin started) :=
  .ite (h.nextNode.bind fun _ => .ite (.pure _) h.enter) h.enter

theorem findSet (h : m.Agree r n) (f : Frame) : WalkAgree r (m.findSet f) (n.findSet f) := by
  unfold Motion.findSet
  cases f.stage with
  | start _ _ => exact .pure _
  | known _ _ => exact .pure _
  | axis _ _ _ => exact .inEarlier _ (h.nextOrigin _)
  | condition _ _ _ => exact .inEarlier _ h.nextSet

theorem advanceSet (h : m.Agree r n) : WalkAgree r m.advanceSet n.advanceSet := by
  refine (WalkAgree.move _).bind fun _ => .frame_bind fun f => .ite (.pure _) ?_
  exact (h.findSet f).bind fun _ => (WalkAgree.modifyFrame _).bind fun _ => .pure _

/-! ## §C  Nodes -/

theorem pendingNodes (h : m.Agree r n) (axis : Axis) (pending : Option (List Pointer)) :
    WalkAgree r (m.pendingNodes axis pending) (n.pendingNodes axis pending) := by
  cases pending with
  | some nodes => exact .pure _
  | none =>
    refine (WalkAgree.inEarlier none h.current).bind fun origin? => ?_
    cases origin? with
    | none => exact .pure _
    | some origin =>
      exact (WalkAgree.lift (.opened origin)).bind fun _ => .store_bind fun _ _ => .pure _

theorem nextAlong (h : m.Agree r n) (hs : s.Agree r t) (axis : Axis) (test : NodeTest)
    (pending : Option (List Pointer)) :
    WalkAgree r (m.nextAlong s axis test pending) (n.nextAlong t axis test pending) := by
  refine (h.pendingNodes axis pending).bind fun nodes? => ?_
  cases nodes? with
  | none => exact .pure _
  | some nodes =>
    refine .store_bind fun st hst => ?_
    rw [hs.resolve st hst]
    exact (WalkAgree.modifyFrame _).bind fun _ => .pure _

theorem tryNext (h : m.Agree r n) (hs : s.Agree r t) (e : Expr) (positional : Bool) :
    WalkAgree r (m.tryNext s e positional) (n.tryNext t e positional) := by
  have hfound : WalkAgree r (do pure (some (Match.node (← m.current)))) (do pure (some (.node (← n.current)))) :=
    h.current.bind fun _ => .pure _
  have htruth : ∀ d : Datum, WalkAgree r
      (do if d.toBoolean (← Walk.store) then pure (some (Match.node (← m.current))) else pure none)
      (do if d.toBoolean (← Walk.store) then pure (some (.node (← n.current))) else pure none) :=
    fun d => .store_bind fun _ _ => .ite hfound (.pure _)
  refine h.nextNode.bind fun _ => .ite (.pure _) ((hs.test h e).bind fun d => ?_)
  cases d with
  | number x =>
    cases positional with
    | true => exact .pure _
    | false => exact .frame_bind fun _ => .ite hfound (.pure _)
  | _ => exact htruth _

theorem nodeAt (h : m.Agree r n) (x : Float) : WalkAgree r (m.nodeAt x) (n.nodeAt x) :=
  .ite ((h.setPosition _).bind fun _ => .ite h.current (.pure _)) (.pure _)

theorem nextMatching (h : m.Agree r n) (hs : s.Agree r t) (e : Expr) (positional done : Bool) :
    WalkAgree r (m.nextMatching s e positional done) (n.nextMatching t e positional done) := by
  refine .ite (.pure _) ((WalkAgree.inEarlier _ (.repeatUntil (h.tryNext hs e positional))).bind fun found => ?_)
  cases found with
  | missing => exact .pure _
  | node p => exact .pure p
  | position x => exact (WalkAgree.modifyFrame _).bind fun _ => .inEarlier _ (h.nodeAt x)

theorem produce (h : m.Agree r n) (hs : s.Agree r t) : WalkAgree r (m.produce s) (n.produce t) := by
  refine .frame_bind fun f => ?_
  cases f.stage with
  | start _ members =>
    cases members with
    | none => exact .pure _
    | some _ => exact .pure _
  | known _ _ => exact .pure _
  | axis axis test pending => exact h.nextAlong hs axis test pending
  | condition e positional done => exact h.nextMatching hs e positional done

theorem isInSet (h : m.Agree r n) : WalkAgree r m.isInSet n.isInSet := by
  refine .frame_bind fun f => ?_
  cases f.progress with
  | exhausted => exact .pure _
  | notStarted => exact h.advanceSet
  | inSet => exact .pure _

theorem advanceNode (h : m.Agree r n) (hs : s.Agree r t) :
    WalkAgree r (m.advanceNode s) (n.advanceNode t) := by
  refine h.isInSet.bind fun _ => .ite (.pure _) ((h.produce hs).bind fun p? => ?_)
  cases p? with
  | none => exact .pure _
  | some p => exact (WalkAgree.modifyFrame _).bind fun _ => .pure _

/-! ## §D  Positions -/

theorem advanceTo (h : m.Agree r n) (hs : s.Agree r t) (position : Nat) :
    WalkAgree r (m.advanceTo s position) (n.advanceTo t position) := by
  refine .repeatUntil (.frame_bind fun _ => .ite ?_ (.pure _))
  exact (h.advanceNode hs).bind fun _ => .ite (.pure _) (.pure _)

theorem moveTo (h : m.Agree r n) (hs : s.Agree r t) (position : Nat) :
    WalkAgree r (m.moveTo s position) (n.moveTo t position) := by
  refine .frame_bind fun f => .ite ((WalkAgree.move _).bind fun _ => .pure _) ?_
  cases Motion.knownAt? position f.stage with
  | some found => exact (WalkAgree.modifyFrame _).bind fun _ => .pure _
  | none =>
    refine .ite (.pure _) (.ite ?_ (h.advanceTo hs position))
    exact (WalkAgree.move _).bind fun _ => h.advanceTo hs position

theorem nodeHere (h : m.Agree r n) (hs : s.Agree r t) : WalkAgree r (m.nodeHere s) (n.nodeHere t) := by
  refine .frame_bind fun f => ?_
  have hmove : WalkAgree r
      (do
        if f.position == 0 then
          if !(← m.moveTo s 1) then return none
        pure (← Walk.frame).current)
      (do
        if f.position == 0 then
          if !(← n.moveTo t 1) then return none
        pure (← Walk.frame).current) :=
    .ite ((h.moveTo hs 1).bind fun _ => .ite (.pure _) .frameCurrent) .frameCurrent
  cases f.stage with
  | start _ members =>
    cases members with
    | none => exact .pure _
    | some _ => exact hmove
  | _ => exact hmove

/-- **next** adds a stage to both motions. -/
theorem next (h : m.Agree r n) (hs : s.Agree r t) : (m.next s).Agree r (n.next t) where
  nextSet := h.advanceSet
  nextNode := h.advanceNode hs
  setPosition := h.moveTo hs
  current := h.nodeHere hs

theorem ofLength (hs : s.Agree r t) (length : Nat) : (Motion.ofLength s length).Agree r (.ofLength t length) := by
  induction length with
  | zero => exact still
  | succ length ih => exact ih.next hs

end Motion.Agree

/-- Walks that concur for motions that concur do so for the motions of every cursor. -/
theorem WalkAgree.moving {α : Type} (hs : s.Agree r t) {f g : Motion → Walk α}
    (h : ∀ {m n}, Motion.Agree r m n → WalkAgree r (f m) (g n)) :
    WalkAgree r (Walk.moving s f) (Walk.moving t g) := .cursor_bind fun _ => h (.ofLength hs _)

namespace Motion.Agree

/-! ## §E  Delivery -/

theorem listSet (h : m.Agree r n) : WalkAgree r m.listSet n.listSet := by
  refine .frame_bind fun f => ?_
  have hlist : WalkAgree r
      (do
        let nodes ← Walk.collectAll do if ← m.nextNode then pure (← Walk.frame).current else pure none
        let _ ← m.setPosition f.position
        pure nodes)
      (do
        let nodes ← Walk.collectAll do if ← n.nextNode then pure (← Walk.frame).current else pure none
        let _ ← n.setPosition f.position
        pure nodes) := by
    refine (WalkAgree.collectAll (h.nextNode.bind fun _ => .ite .frameCurrent (.pure _))).bind fun _ => ?_
    exact (h.setPosition _).bind fun _ => .pure _
  exact .ite ((WalkAgree.move _).bind fun _ => hlist) hlist

theorem first (h : m.Agree r n) : WalkAgree r m.first n.first :=
  (WalkAgree.move _).bind fun _ => h.enter.bind fun _ => .ite .frameCurrent (.pure _)

theorem pull (h : m.Agree r n) : WalkAgree r m.pull n.pull := by
  have hadvance : WalkAgree r m.advance n.advance :=
    .frame_bind fun _ => .ite (h.nextNode.bind fun _ => .ite (.pure _) h.enter) h.enter
  exact hadvance.bind fun _ => .ite .frameCurrent (.pure _)

theorem drain (h : m.Agree r n) : WalkAgree r m.drain n.drain :=
  h.enter.bind fun _ => .ite (.pure _) (.frame_bind fun _ => (WalkAgree.collectAll h.pull).bind fun _ => .pure _)

theorem nodeSet (h : m.Agree r n) : WalkAgree r m.nodeSet n.nodeSet := by
  refine .frame_bind fun _ => .ite ((WalkAgree.throw (r.usual rfl)).bind fun _ => ?rest) ?rest
  -- The nodes are pulled, and only when the cursor is back at the start do they, or their error, come out.
  refine .cursor_bind fun _ => .attempt_bind h.drain (fun nodes => ?_) fun e he => ?_
  · refine (WalkAgree.move _).bind fun _ => (WalkAgree.ofExcept (r.answered nodes)).bind fun _ => ?_
    exact .ite (.pure _) (.store_bind fun _ _ => .ofExcept fun _ => r.sortDistinct)
  · exact (WalkAgree.move _).bind fun _ => (WalkAgree.throw he).bind fun _ =>
      .ite (.pure _) (.store_bind fun _ _ => .ofExcept fun _ => r.sortDistinct)

theorem prepare (h : m.Agree r n) : WalkAgree r m.prepare n.prepare := by
  refine .cursor_bind fun _ => .frame_bind fun _ => .ite ?_ (.pure _)
  have hsorted : ∀ order, WalkAgree r (m.sortedNodes order) (n.sortedNodes order) := fun _ =>
    h.drain.bind fun _ => .store_bind fun _ _ => .ofExcept fun _ => r.sortDistinct
  refine .attempt_bind (hsorted _) (fun nodes => .modifyFrame _) fun e he => ?_
  exact (WalkAgree.modifyFrame _).bind fun _ => .throw he

theorem deliver (h : m.Agree r n) : WalkAgree r m.deliver n.deliver := by
  refine h.prepare.bind fun _ => .frame_bind fun f => ?_
  cases f.sorted with
  | none => exact h.pull
  | some nodes => exact (WalkAgree.modifyFrame _).bind fun _ => .pure _

theorem deliverAll (h : m.Agree r n) : WalkAgree r m.deliverAll n.deliverAll := .collectAll h.deliver

theorem deliverUpTo (h : m.Agree r n) (times : Nat) (taken : List Pointer) :
    WalkAgree r (m.deliverUpTo times taken) (n.deliverUpTo times taken) := by
  induction times generalizing taken with
  | zero => exact .pure _
  | succ times ih =>
    refine .attempt_bind h.deliver (fun p? => ?_) fun e _ => .pure _
    cases p? with
    | none => exact .pure _
    | some p => exact ih (p :: taken)

theorem deliverRest (h : m.Agree r n) : WalkAgree r m.deliverRest n.deliverRest := h.deliverUpTo _ []

end Motion.Agree

end NodePath
