/-
# NodePath.Proofs.AlikeMotion — alike cursors move alike

When the stages before the last one move alike, and predicates are answered alike, the last one moves alike,
too. So cursors of any length do, and what is pulled from alike cursors is alike.

* §A  `MotionAlike` and `SurroundingsAlike`.
* §B  Values that become nodes.
* §C  Sets.
* §D  Nodes.
* §E  Positions, and motions of any length.
* §F  Delivery.
-/
import NodePath.Cursor.Delivery
import NodePath.Pointer.Make
import NodePath.Proofs.Relate

namespace NodePath

variable {w w' : World} {s t : Surroundings} {m n : Motion}

/-! ## §A  Motions -/

/-- **MotionAlike** says that two motions move alike cursors alike. -/
structure MotionAlike (w : World) (m n : Motion) : Prop where
  nextSet : StepAlike w (.eq Bool) m.nextSet n.nextSet
  nextNode : StepAlike w (.eq Bool) m.nextNode n.nextNode
  setPosition : ∀ i, StepAlike w (.eq Bool) (m.setPosition i) (n.setPosition i)
  current : StepAlike w Relation.pointer.option m.current n.current

/-- **SurroundingsAlike** says that labels are resolved alike, and predicates answered alike. -/
structure SurroundingsAlike (w : World) (s t : Surroundings) : Prop where
  resolve : ∀ v st st', w.Grows v → v.Holds st st' → s.resolve st = t.resolve st'
  test : ∀ v m n e, w.Grows v → MotionAlike v m n → StepAlike v .datum (s.test m e) (t.test n e)

theorem MotionAlike.grow (hw : w.Grows w') (h : MotionAlike w m n) : MotionAlike w' m n where
  nextSet := h.nextSet.grow hw
  nextNode := h.nextNode.grow hw
  setPosition i := (h.setPosition i).grow hw
  current := h.current.grow hw

theorem SurroundingsAlike.grow (hw : w.Grows w') (h : SurroundingsAlike w s t) : SurroundingsAlike w' s t where
  resolve v st st' hv := h.resolve v st st' (hw.trans hv)
  test v m n e hv := h.test v m n e (hw.trans hv)

/-- Where both walks branch, they branch alike. -/
theorem WalkAlike.ite {α β : Type} {L : Link} {lax : Prop} {R : Relation α β} {c c' : Prop} [Decidable c]
    [Decidable c'] (hc : c ↔ c') {a b : Walk α} {a' b' : Walk β} (ha : WalkAlike w L lax R a a')
    (hb : WalkAlike w L lax R b b') : WalkAlike w L lax R (if c then a else b) (if c' then a' else b') := by
  by_cases h : c
  · rwa [if_pos h, if_pos (hc.mp h)]
  · rwa [if_neg h, if_neg (mt hc.mpr h)]

/-- The node at the position of the frame. -/
theorem StepAlike.frameCurrent :
    StepAlike w Relation.pointer.option (do pure (← Walk.frame).current) (do pure (← Walk.frame).current) :=
  .frame_bind fun _ _ _ _ hf => .pure hf.current

theorem StepAlike.rewind : StepAlike w (.eq Unit) (Walk.move Cursor.rewound) (Walk.move Cursor.rewound) :=
  .move fun _ _ _ _ => Cursor.Alike.rewound

theorem StepAlike.restart : StepAlike w (.eq Unit) (Walk.move Cursor.restarted) (Walk.move Cursor.restarted) :=
  .move fun _ _ _ _ => Cursor.Alike.restarted

/-! ## §B  Values that become nodes -/

/-- Numbers of documents. -/
def Relation.document : Relation DocId DocId := ⟨World.pairs, fun hw h => hw.pairs h⟩

/-- The same document, stored on both sides. -/
theorem EvalAlike.addDocument (j : Json) :
    EvalAlike w .document (Eval.change (·.addDocument j)) (Eval.change (·.addDocument j)) :=
  fun v _ _ _ hst => ⟨v.pair hst, v.grows_pair hst, v.holds_pair hst j, .ok (Or.inr ⟨rfl, rfl⟩)⟩

/-- A document becomes a node of the same name. -/
theorem EvalAlike.make (name : QName) (j : Json) :
    EvalAlike w .pointer (Pointer.make name (.json j)) (Pointer.make name (.json j)) := by
  refine .get_bind fun v st st' hv hst => ?_
  rw [hst.left.registry, hst.right.registry]
  split
  · exact (EvalAlike.addDocument j).bind fun _ _ _ _ hd => .pure (.json _ _ _ _ hd)
  · exact .throw _

theorem EvalAlike.wrap {d d' : Datum} (h : d.Alike w d') : EvalAlike w .pointer (Pointer.wrap d) (Pointer.wrap d') := by
  have hmake : ∀ {d d' : Datum}, d.Alike w d' → EvalAlike w .pointer
      (do Pointer.make (.plain "") (.json (d.toJson (← get))))
      (do Pointer.make (.plain "") (.json (d'.toJson (← get)))) := fun hd =>
    .get_bind fun _ _ _ hv hst => by
      rw [hst.toJson (Datum.Alike.grow hv hd)]
      exact .make _ _
  cases h with
  | pointer hp => exact .pure hp
  | null => exact .pure (.absent _)
  | boolean b => exact hmake (.boolean b)
  | number x => exact hmake (.number x)
  | text s => exact hmake (.text s)
  | object j => exact hmake (.object j)

/-- **Alike** ends of a search are alike nodes, the same position, or no node. -/
inductive Motion.Match.Alike (w : World) : Motion.Match → Motion.Match → Prop
  | missing : Alike w .missing .missing
  | node {p? q? : Option Pointer} : Option.Rel (Pointer.Alike w) p? q? → Alike w (.node p?) (.node q?)
  | position (x : Float) : Alike w (.position x) (.position x)

/-- Ends of a search. -/
def Relation.match : Relation Motion.Match Motion.Match where
  rel := Motion.Match.Alike
  grow hw h := by
    cases h with
    | missing => exact .missing
    | node hp => exact .node (Relation.pointer.option.grow hw hp)
    | position x => exact .position x

theorem EvalAlike.opened {p q : Pointer} (h : p.Alike w q) :
    EvalAlike w .pointer p.opened q.opened := by
  refine .get_bind fun v st st' hv hst => .get_bind fun u st₁ st₁' hu hst₁ => ?_
  have hf := (hst.follow (h.grow hv)).grow hu
  have ho := hst₁.opening hf
  generalize (p.follow st).opening st₁ = o, (q.follow st').opening st₁' = o' at ho ⊢
  cases ho with
  | shut => exact .pure hf
  | onto _ => exact .pure hf
  | onDocument hd => exact .pure (hf.documentOf hd)
  -- A value without a document of its own gets a new one in both stores, and the world grows by that pair.
  | onCopy j =>
    exact (EvalAlike.addDocument j).bind fun x d e hx hd =>
      .pure (Pointer.Alike.documentOf (hf.grow hx) (show x.pairs d e from hd))

namespace MotionAlike

/-! ## §C  Sets -/

theorem still : MotionAlike w .still .still :=
  ⟨.pure rfl, .pure rfl, fun _ => .pure rfl, .pure .none⟩

theorem enter (h : MotionAlike w m n) : StepAlike w (.eq Bool) m.enter n.enter := by
  refine .repeatUntil (h.nextSet.bind ?_)
  rintro v a _ hv rfl
  refine .ite Iff.rfl (.pure (.some rfl)) ((h.nextNode.grow hv).bind ?_)
  rintro v a _ hv rfl
  exact .ite Iff.rfl (.pure (.some rfl)) (.pure .none)

theorem nextOrigin (h : MotionAlike w m n) (started : Bool) :
    StepAlike w (.eq Bool) (m.nextOrigin started) (n.nextOrigin started) := by
  refine .ite Iff.rfl (h.nextNode.bind ?_) h.enter
  rintro v a _ hv rfl
  exact .ite Iff.rfl (.pure rfl) (h.enter.grow hv)

theorem findSet (h : MotionAlike w m n) {f g : Frame} (hf : f.Alike w g) :
    StepAlike w (.eq Bool) (m.findSet f) (n.findSet g) := by
  have hs := hf.stage
  simp only [Motion.findSet, hf.progress]
  -- Alike stages are of one kind, so both motions take the same branch.
  generalize f.stage = a, g.stage = b at hs ⊢
  cases hs with
  | start _ _ => exact .pure rfl
  | known _ _ => exact .pure rfl
  | axis _ _ _ => exact .inEarlier (h.nextOrigin _) rfl
  | condition _ _ _ => exact .inEarlier h.nextSet rfl

theorem advanceSet (h : MotionAlike w m n) : StepAlike w (.eq Bool) m.advanceSet n.advanceSet := by
  refine StepAlike.rewind.bind fun v _ _ hv _ => StepAlike.frame_bind fun u f g hu hf => ?_
  refine .ite (by rw [hf.progress]) (.pure rfl) (((h.grow (hv.trans hu)).findSet hf).bind ?_)
  rintro x a _ hx rfl
  refine (StepAlike.modifyFrame fun y f g _ hf => ?_).bind fun _ _ _ _ _ => .pure rfl
  exact ⟨hf.stage, hf.position, hf.current, rfl, hf.sorted⟩

/-! ## §D  Nodes -/

theorem pendingNodes (h : MotionAlike w m n) (axis : Axis) {ps? qs? : Option (List Pointer)}
    (hs : Option.Rel (PointersAlike w) ps? qs?) :
    StepAlike w Relation.pointer.list.option (m.pendingNodes axis ps?) (n.pendingNodes axis qs?) := by
  cases hs with
  | some hs => exact .pure (.some hs)
  | none =>
    refine (StepAlike.inEarlier h.current .none).bind fun v o? o'? hv ho => ?_
    cases ho with
    | none => exact .pure .none
    | some ho =>
      refine (WalkAlike.lift (EvalAlike.opened ho)).bind fun u p q hu hp => ?_
      exact WalkAlike.store_bind fun x st st' hx hst => .pure (.some (hst.nodes axis (hp.grow hx)))

theorem nextAlong (h : MotionAlike w m n) (hs : SurroundingsAlike w s t) (axis : Axis) (test : NodeTest)
    {ps? qs? : Option (List Pointer)} (hps : Option.Rel (PointersAlike w) ps? qs?) :
    StepAlike w Relation.pointer.option (m.nextAlong s axis test ps?) (n.nextAlong t axis test qs?) := by
  refine (h.pendingNodes axis hps).bind fun v o? o'? hv ho => ?_
  cases ho with
  | none => exact .pure .none
  | some ho =>
    refine WalkAlike.store_bind fun u st st' hu hst => ?_
    rw [hs.resolve u st st' (hv.trans hu) hst]
    have hrest := PointersAlike.dropWhile (f := fun p => !test.accepts (t.resolve st') p st)
      (g := fun p => !test.accepts (t.resolve st') p st') (fun hp => by rw [hst.accepts test _ hp])
      (PointersAlike.grow hu ho)
    refine (StepAlike.modifyFrame fun x f g hx hf => ?_).bind fun x _ _ hx _ =>
      .pure (Relation.pointer.option.grow hx hrest.head?)
    exact ⟨.axis axis test (.some (PointersAlike.grow hx (hrest.drop 1))), hf.position, hf.current, hf.progress,
      hf.sorted⟩

theorem tryNext (h : MotionAlike w m n) (hs : SurroundingsAlike w s t) (e : Expr) (positional : Bool) :
    StepAlike w Relation.match.option (m.tryNext s e positional) (n.tryNext t e positional) := by
  refine h.nextNode.bind ?_
  rintro v a _ hv rfl
  have hcurrent : StepAlike v Relation.match.option (do pure (some (.node (← m.current))))
      (do pure (some (.node (← n.current)))) :=
    (h.grow hv).current.bind fun _ _ _ _ hp => .pure (.some (.node hp))
  refine .ite Iff.rfl (.pure (.some .missing)) ((hs.test v m n e hv (h.grow hv)).bind fun u d d' hu hd => ?_)
  have htruth : StepAlike u Relation.match.option
      (do if d.toBoolean (← Walk.store) then pure (some (.node (← m.current))) else pure none)
      (do if d'.toBoolean (← Walk.store) then pure (some (.node (← n.current))) else pure none) :=
    WalkAlike.store_bind fun x st st' hx hst =>
      .ite (by rw [hst.toBoolean (hd.grow hx)]) (hcurrent.grow (hu.trans hx)) (.pure .none)
  cases hd with
  | number x =>
    cases positional with
    | true => exact .pure (.some (.position x))
    | false =>
      refine StepAlike.frame_bind fun y f g hy hf => ?_
      exact .ite (by rw [hf.position]) (hcurrent.grow (hu.trans hy)) (.pure .none)
  | _ => exact htruth

theorem nodeAt (h : MotionAlike w m n) (x : Float) :
    StepAlike w Relation.pointer.option (m.nodeAt x) (n.nodeAt x) := by
  refine .ite Iff.rfl ((h.setPosition _).bind ?_) (.pure .none)
  rintro v a _ hv rfl
  exact .ite Iff.rfl (h.current.grow hv) (.pure .none)

theorem nextMatching (h : MotionAlike w m n) (hs : SurroundingsAlike w s t) (e : Expr) (positional done : Bool) :
    StepAlike w Relation.pointer.option (m.nextMatching s e positional done)
      (n.nextMatching t e positional done) := by
  refine .ite Iff.rfl (.pure .none) ?_
  refine (StepAlike.inEarlier (WalkAlike.repeatUntil (h.tryNext hs e positional)) .missing).bind
    fun v a b hv hab => ?_
  cases hab with
  | missing => exact .pure .none
  | node hp => exact .pure hp
  | position x =>
    refine (StepAlike.modifyFrame fun u f g hu hf => ?_).bind fun u _ _ hu _ =>
      (StepAlike.inEarlier (h.nodeAt x) .none).grow (hv.trans hu)
    exact ⟨.condition e positional true, hf.position, hf.current, hf.progress, hf.sorted⟩

theorem produce (h : MotionAlike w m n) (hs : SurroundingsAlike w s t) :
    StepAlike w Relation.pointer.option (m.produce s) (n.produce t) := by
  refine StepAlike.frame_bind fun v f g hv hf => ?_
  have hstage := hf.stage
  simp only [hf.position]
  generalize f.stage = a, g.stage = b at hstage ⊢
  cases hstage with
  | start hp hps =>
    cases hps with
    | none => exact .pure (by split; exacts [.some hp, .none])
    | some hps => exact .pure (PointersAlike.getElem? hps _)
  | known _ hps => exact .pure (PointersAlike.getElem? hps _)
  | axis a test hps => exact (h.grow hv).nextAlong (hs.grow hv) a test hps
  | condition e positional done => exact (h.grow hv).nextMatching (hs.grow hv) e positional done

theorem isInSet (h : MotionAlike w m n) : StepAlike w (.eq Bool) m.isInSet n.isInSet := by
  refine StepAlike.frame_bind fun v f g hv hf => ?_
  rw [hf.progress]
  cases g.progress with
  | exhausted => exact .pure rfl
  | notStarted => exact h.advanceSet.grow hv
  | inSet => exact .pure rfl

theorem advanceNode (h : MotionAlike w m n) (hs : SurroundingsAlike w s t) :
    StepAlike w (.eq Bool) (m.advanceNode s) (n.advanceNode t) := by
  refine h.isInSet.bind ?_
  rintro v a _ hv rfl
  refine .ite Iff.rfl (.pure rfl) (((h.produce hs).grow hv).bind fun u p? q? hu hp => ?_)
  cases hp with
  | none => exact .pure rfl
  | some hp =>
    refine (StepAlike.modifyFrame fun x f g hx hf => ?_).bind fun _ _ _ _ _ => .pure rfl
    exact ⟨hf.stage, by rw [hf.position], .some (hp.grow hx), hf.progress, hf.sorted⟩

/-! ## §E  Positions -/

theorem knownAt? {a b : Stage} (hs : a.Alike w b) (position : Nat) :
    Option.Rel (Option.Rel (Pointer.Alike w)) (Motion.knownAt? position a) (Motion.knownAt? position b) := by
  cases hs with
  | start hp hps =>
    cases hps with
    | none => exact .some (by split; exacts [.some hp, .none])
    | some hps => exact .some (PointersAlike.getElem? hps _)
  | known _ hps => exact .some (PointersAlike.getElem? hps _)
  | axis _ _ _ => exact .none
  | condition _ _ _ => exact .none

theorem advanceTo (h : MotionAlike w m n) (hs : SurroundingsAlike w s t) (position : Nat) :
    StepAlike w (.eq Bool) (m.advanceTo s position) (n.advanceTo t position) := by
  refine .repeatUntil (StepAlike.frame_bind fun v f g hv hf => ?_)
  refine .ite (by rw [hf.position]) (((h.advanceNode hs).grow hv).bind ?_) (.pure (.some rfl))
  rintro u a _ hu rfl
  exact .ite Iff.rfl (.pure .none) (.pure (.some rfl))

/-- Whether there is a node. -/
theorem isSome_eq {p? q? : Option Pointer} (h : Option.Rel (Pointer.Alike w) p? q?) :
    p?.isSome = q?.isSome := by
  cases h <;> rfl

theorem moveTo (h : MotionAlike w m n) (hs : SurroundingsAlike w s t) (position : Nat) :
    StepAlike w (.eq Bool) (m.moveTo s position) (n.moveTo t position) := by
  refine StepAlike.frame_bind fun v f g hv hf => .ite Iff.rfl ?_ ?_
  · exact StepAlike.rewind.bind fun _ _ _ _ _ => .pure rfl
  · have hknown := knownAt? hf.stage position
    generalize Motion.knownAt? position f.stage = a, Motion.knownAt? position g.stage = b at hknown ⊢
    cases hknown with
    | none =>
      have hto := (h.advanceTo hs position).grow hv
      refine .ite (by rw [hf.position]) (.pure (isSome_eq hf.current)) ?_
      exact .ite (by rw [hf.position]) (StepAlike.rewind.bind fun u _ _ hu _ => hto.grow hu) hto
    | some hfound =>
      refine (StepAlike.modifyFrame fun x f g hx hf => ?_).bind fun _ _ _ _ _ => .pure (isSome_eq hfound)
      exact ⟨hf.stage, rfl, Relation.pointer.option.grow hx hfound, by simp only [hf.progress], hf.sorted⟩

theorem nodeHere (h : MotionAlike w m n) (hs : SurroundingsAlike w s t) :
    StepAlike w Relation.pointer.option (m.nodeHere s) (n.nodeHere t) := by
  refine StepAlike.frame_bind fun v f g hv hf => ?_
  have hstage := hf.stage
  have hmove : ∀ {u}, w.Grows u → StepAlike u Relation.pointer.option
      (do
        if f.position == 0 then
          if !(← m.moveTo s 1) then return none
        pure (← Walk.frame).current)
      (do
        if g.position == 0 then
          if !(← n.moveTo t 1) then return none
        pure (← Walk.frame).current) := by
    intro u hu
    refine .ite (by rw [hf.position]) (((h.moveTo hs 1).grow hu).bind ?_) StepAlike.frameCurrent
    rintro x a _ hx rfl
    exact .ite Iff.rfl (.pure .none) StepAlike.frameCurrent
  generalize f.stage = a, g.stage = b at hstage ⊢
  cases hstage with
  | start hp hps =>
    cases hps with
    | none => exact .pure (.some hp)
    | some _ => exact hmove hv
  | _ => exact hmove hv

/-- **next** adds a stage to both motions. -/
theorem next (h : MotionAlike w m n) (hs : SurroundingsAlike w s t) : MotionAlike w (m.next s) (n.next t) where
  nextSet := h.advanceSet
  nextNode := h.advanceNode hs
  setPosition := h.moveTo hs
  current := h.nodeHere hs

theorem ofLength (hs : SurroundingsAlike w s t) (length : Nat) :
    MotionAlike w (.ofLength s length) (.ofLength t length) := by
  induction length with
  | zero => exact .still
  | succ length ih => exact ih.next hs

end MotionAlike

/-- Two walks that are alike for alike motions are alike for the motions of alike cursors. -/
theorem StepAlike.moving {α β : Type} {R : Relation α β} (hs : SurroundingsAlike w s t) {f : Motion → Walk α}
    {g : Motion → Walk β}
    (h : ∀ v m n, w.Grows v → MotionAlike v m n → StepAlike v R (f m) (g n)) :
    StepAlike w R (Walk.moving s f) (Walk.moving t g) := by
  refine StepAlike.cursor_bind fun v c d hv hc => ?_
  simp only [Cursor.motion, hc.earlier.length_eq]
  exact h v _ _ hv (.ofLength (hs.grow hv) _)

namespace MotionAlike

/-! ## §F  Delivery -/

theorem listSet (h : MotionAlike w m n) : StepAlike w Relation.pointer.list m.listSet n.listSet := by
  refine StepAlike.frame_bind fun v f g hv hf => ?_
  have hnode : StepAlike w Relation.pointer.option
      (do if ← m.nextNode then pure (← Walk.frame).current else pure none)
      (do if ← n.nextNode then pure (← Walk.frame).current else pure none) := by
    refine h.nextNode.bind ?_
    rintro v a _ hv rfl
    exact .ite Iff.rfl StepAlike.frameCurrent (.pure .none)
  have hlist : ∀ {u}, w.Grows u → StepAlike u Relation.pointer.list
      (do
        let nodes ← Walk.collectAll do if ← m.nextNode then pure (← Walk.frame).current else pure none
        let _ ← m.setPosition f.position
        pure nodes)
      (do
        let nodes ← Walk.collectAll do if ← n.nextNode then pure (← Walk.frame).current else pure none
        let _ ← n.setPosition g.position
        pure nodes) := by
    intro u hu
    refine (WalkAlike.collectAll (hnode.grow hu)).bind fun x ps qs hx hs => ?_
    rw [hf.position]
    exact ((h.setPosition _).grow (hu.trans hx)).bind fun y _ _ hy _ => .pure (Relation.pointer.list.grow hy hs)
  exact .ite (by rw [hf.position]) (StepAlike.rewind.bind fun u _ _ hu _ => hlist (hv.trans hu)) (hlist hv)

theorem first (h : MotionAlike w m n) : StepAlike w Relation.pointer.option m.first n.first := by
  refine StepAlike.restart.bind fun v _ _ hv _ => (h.enter.grow hv).bind ?_
  rintro u a _ hu rfl
  exact .ite Iff.rfl StepAlike.frameCurrent (.pure .none)

theorem advance (h : MotionAlike w m n) : StepAlike w (.eq Bool) m.advance n.advance := by
  refine StepAlike.frame_bind fun v f g hv hf => ?_
  refine .ite (by rw [hf.position]) ((h.nextNode.grow hv).bind ?_) (h.enter.grow hv)
  rintro u a _ hu rfl
  exact .ite Iff.rfl (.pure rfl) (h.enter.grow (hv.trans hu))

theorem pull (h : MotionAlike w m n) : StepAlike w Relation.pointer.option m.pull n.pull := by
  refine h.advance.bind ?_
  rintro v a _ hv rfl
  exact .ite Iff.rfl StepAlike.frameCurrent (.pure .none)

theorem drain (h : MotionAlike w m n) : StepAlike w Relation.pointer.list m.drain n.drain := by
  refine h.enter.bind ?_
  rintro v a _ hv rfl
  refine .ite Iff.rfl (.pure .nil) (StepAlike.frame_bind fun u f g hu hf => ?_)
  refine ((WalkAlike.collectAll h.pull).grow (hv.trans hu)).bind fun x ps qs hx hs => .pure ?_
  exact PointersAlike.append (PointersAlike.ofOption (Relation.pointer.option.grow hx hf.current)) hs

/-- Sorting what a walk answers. -/
theorem sorted {ps qs : List Pointer} (hs : PointersAlike w ps qs) (order : Order) :
    StepAlike w Relation.pointer.list (do Walk.ofExcept (sortDistinct (← Walk.store) ps order))
      (do Walk.ofExcept (sortDistinct (← Walk.store) qs order)) :=
  WalkAlike.store_bind fun _ _ _ hv hst => .ofExcept (hst.sortDistinct (PointersAlike.grow hv hs) order)

theorem nodeSet (h : MotionAlike w m n) : StepAlike w Relation.pointer.list m.nodeSet n.nodeSet := by
  refine StepAlike.frame_bind fun v f g hv hf => .ite (by rw [hf.position]) ?_ ?_
  · exact (WalkAlike.throw (R := ⟨fun _ _ _ => False, fun _ => id⟩) _).bind fun _ _ _ _ h => h.elim
  · refine StepAlike.cursor_bind fun u c d hu hc => ?_
    refine ((StepAlike.attempt h.drain).grow (hv.trans hu)).bind fun x r r' hx hr => ?_
    refine StepAlike.restart.bind fun y _ _ hy _ => ?_
    refine (WalkAlike.ofExcept (R := Relation.pointer.list)
      (Relation.pointer.list.except.grow hy hr)).bind fun z ps qs hz hs => ?_
    exact .ite (by rw [hc.order]) (.pure hs) (by rw [hc.order]; exact sorted hs _)

theorem sortedNodes (h : MotionAlike w m n) (order : Order) :
    StepAlike w Relation.pointer.list (m.sortedNodes order) (n.sortedNodes order) :=
  h.drain.bind fun _ _ _ _ hs => sorted hs order

theorem prepare (h : MotionAlike w m n) : StepAlike w (.eq Unit) m.prepare n.prepare := by
  refine StepAlike.cursor_bind fun v c d hv hc => StepAlike.frame_bind fun u f g hu hf => ?_
  have hsorted : f.sorted.isNone = g.sorted.isNone := by
    have hs := hf.sorted
    generalize f.sorted = a, g.sorted = b at hs ⊢
    cases hs <;> rfl
  refine .ite (by rw [hsorted, hc.order]) ?_ (.pure rfl)
  rw [hc.order]
  refine ((StepAlike.attempt (h.sortedNodes d.order)).grow (hv.trans hu)).bind fun x r r' hx hr => ?_
  cases hr with
  | ok hs =>
    exact StepAlike.modifyFrame fun y f g hy hf =>
      ⟨hf.stage, hf.position, hf.current, hf.progress, .some (Relation.pointer.list.grow hy hs)⟩
  | error e =>
    refine (StepAlike.modifyFrame fun y f g hy hf => ?_).bind fun _ _ _ _ _ => .throw e
    exact ⟨hf.stage, hf.position, hf.current, hf.progress, .some .nil⟩

theorem deliver (h : MotionAlike w m n) : StepAlike w Relation.pointer.option m.deliver n.deliver := by
  refine h.prepare.bind fun v _ _ hv _ => StepAlike.frame_bind fun u f g hu hf => ?_
  have hs := hf.sorted
  generalize f.sorted = a, g.sorted = b at hs ⊢
  cases hs with
  | none => exact h.pull.grow (hv.trans hu)
  | some hs =>
    refine (StepAlike.modifyFrame fun x f g hx hf => ?_).bind fun x _ _ hx _ =>
      .pure (Relation.pointer.option.grow hx (PointersAlike.head? hs))
    exact ⟨hf.stage, hf.position, hf.current, hf.progress, .some (Relation.pointer.list.grow hx (hs.drop 1))⟩

theorem deliverAll (h : MotionAlike w m n) : StepAlike w Relation.pointer.list m.deliverAll n.deliverAll :=
  .collectAll h.deliver

theorem deliverUpTo (h : MotionAlike w m n) (times : Nat) {ps qs : List Pointer} (hs : PointersAlike w ps qs) :
    StepAlike w (.prod Relation.pointer.list (.eq (Option EvalError))) (m.deliverUpTo times ps)
      (n.deliverUpTo times qs) := by
  induction times generalizing w ps qs with
  | zero => exact .pure ⟨hs.reverse, rfl⟩
  | succ times ih =>
    refine (StepAlike.attempt h.deliver).bind fun v r r' hv hr => ?_
    have hs := PointersAlike.grow hv hs
    cases hr with
    | ok hp =>
      cases hp with
      | none => exact .pure ⟨hs.reverse, rfl⟩
      | some hp => exact ih (h.grow hv) (.cons hp hs)
    | error e => exact .pure ⟨hs.reverse, rfl⟩

theorem deliverRest (h : MotionAlike w m n) :
    StepAlike w (.prod Relation.pointer.list (.eq (Option EvalError))) m.deliverRest n.deliverRest :=
  h.deliverUpTo _ .nil

end MotionAlike

end NodePath
