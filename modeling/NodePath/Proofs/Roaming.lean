/-
# NodePath.Proofs.Roaming — what is still delivered

A cursor that is sure of its moves stands at a place among its sets, wherever it has been sent. One that has left its
last set may besides hold a list, which it has made to deliver its nodes in document order, and it may be sent to a
position without a set. So a cursor is at a place or **over**, and from both it is known what is **pending**: the nodes
that it delivers from now on.

* §A  Cursors that are over.
* §B  What is left at a place.
* §C  `Pending` and `Roams`.
* §D  Pulling and draining.
* §E  Delivery.
* §F  All nodes, and the list of the set.
-/
import NodePath.Proofs.FreshTraversal
import NodePath.Proofs.KnownCursor

namespace NodePath

/-! ## §A  Cursors that are over -/

/-- A stage that knows no nodes knows none at any position. -/
theorem Stage.knownAt?_of_knows_eq_none {stage : Stage} (h : stage.knows = none) (k : Nat) :
    Motion.knownAt? k stage = none := by
  cases stage with
  | start origin members => cases members <;> cases h
  | known nodes order => cases h
  | axis a t pending => rfl
  | condition e positional done => rfl

namespace Cursor

/-- Going back does not matter to a cursor that is restarted. -/
theorem restarted_rewound (c : Cursor) : c.rewound.restarted = c.restarted := by
  have hframe : ∀ f : Frame, Frame.restarted (Frame.rewound f) = Frame.restarted f := fun f => by
    simp only [Frame.restarted, Frame.rewound, rewound_rewound]
  have hframes : ∀ fs : List Frame, (rewoundFrames fs).map Frame.restarted = fs.map Frame.restarted := by
    intro fs
    induction fs with
    | nil => rfl
    | cons f fs ih => cases hstage : f.stage <;> simp only [rewoundFrames, hstage, List.map_cons, hframe, ih]
  have hall := hframes (c.frame :: c.earlier)
  rw [← frames_rewound] at hall
  obtain ⟨hfirst, hearlier⟩ := List.cons.inj hall
  exact congrArg₂ Cursor.mk hfirst hearlier

theorem sortsNext_rewound (stage : Stage) (order : Order) :
    Stage.sortsNext (Stage.rewound stage) order = Stage.sortsNext stage order := by
  cases stage with
  | axis a t pending => cases a <;> rfl
  | _ => rfl

/-- The order of a cursor is a matter of its stages, wherever they are. -/
theorem order_restarted (c : Cursor) : c.restarted.order = c.order := by
  have hframes : ∀ fs : List Frame, orderOf (fs.map Frame.restarted) = orderOf fs := by
    intro fs
    induction fs with
    | nil => rfl
    | cons f fs ih =>
      -- The last stage has an order of its own, or takes it over from the stage before.
      have hbefore : ∀ g gs, fs = g :: gs → Stage.sortsNext (Frame.restarted g).stage (orderOf (fs.map Frame.restarted)) =
          Stage.sortsNext g.stage (orderOf fs) := by
        rintro g gs rfl
        rw [ih]
        exact sortsNext_rewound g.stage _
      rw [List.map_cons]
      cases fs with
      | nil =>
        cases hstage : f.stage with
        | axis a t pending => cases a <;> simp only [orderOf, Frame.restarted, Frame.fresh, Stage.rewound, hstage, List.map_nil]
        | _ => simp only [orderOf, Frame.restarted, Frame.fresh, Stage.rewound, hstage, List.map_nil]
      | cons g gs =>
        have hbefore := hbefore g gs rfl
        rw [List.map_cons] at hbefore ⊢
        unfold orderOf
        dsimp only
        rw [hbefore]
        cases hstage : f.stage with
        | axis a t pending => cases a <;> simp only [Frame.restarted, Frame.fresh, Stage.rewound, hstage]
        | _ => simp only [Frame.restarted, Frame.fresh, Stage.rewound, hstage]
  exact hframes (c.frame :: c.earlier)

/-- **Over** says that a cursor has left its last set. Only a stage that knows its nodes can be at a position then. -/
structure Over (c start : Cursor) : Prop where
  exhausted : c.frame.progress = .exhausted
  restarted : c.restarted = start
  idle : c.frame.position ≠ 0 → ∃ nodes, c.frame.stage.knows = some nodes

/-- **RemainsOver** says that a cursor that is over has become another one, and holds the same list. -/
structure RemainsOver (start c c' : Cursor) : Prop where
  isOver : c'.Over start
  sorted : c'.frame.sorted = c.frame.sorted

namespace Over

variable {start c : Cursor} {s : Surroundings} {up : Motion} {st : Store}

theorem remains (h : c.Over start) : RemainsOver start c c := ⟨h, rfl⟩

/-- The list that it holds does not matter. -/
theorem holding (h : c.Over start) (sorted : Option (List Pointer)) :
    Over { c with frame := { c.frame with sorted := sorted } } start :=
  ⟨h.exhausted, h.restarted, h.idle⟩

theorem order_eq (h : c.Over start) : c.order = start.order := by
  rw [← h.restarted, order_restarted]

theorem rewound (h : c.Over start) : RemainsOver start c c.rewound where
  isOver := {
    exhausted := by rw [rewound_frame]; exact h.exhausted
    restarted := by rw [restarted_rewound, h.restarted]
    idle := fun hne => absurd (by rw [rewound_frame]; rfl) hne }
  sorted := by rw [rewound_frame]; rfl

/-- There is no further set. -/
theorem runOn_advanceSet (h : c.Over start) (up : Motion) (st : Store) :
    up.advanceSet.runOn c st = (.ok false, c.rewound, st) := by
  rw [Motion.advanceSet, Walk.runOn_bind, Walk.runOn_move]
  dsimp only
  rw [Walk.runOn_frame_bind, h.rewound.isOver.exhausted]
  rfl

/-- There is no further node. -/
theorem runOn_advanceNode (h : c.Over start) (s : Surroundings) (up : Motion) (st : Store) :
    (up.advanceNode s).runOn c st = (.ok false, c, st) := by
  have hinside : up.isInSet.runOn c st = (.ok false, c, st) := by
    rw [Motion.isInSet, Walk.runOn_frame_bind, h.exhausted]
    rfl
  rw [Motion.advanceNode, Walk.runOn_bind, hinside]
  rfl

/-- A stage that knows its nodes takes any position; every other one stays before its first node. -/
theorem exists_moveTo (h : c.Over start) (s : Surroundings) (up : Motion) (k : Nat) :
    ∃ found c', (∀ st, (up.moveTo s k).runOn c st = (.ok found, c', st)) ∧ RemainsOver start c c' ∧
      ((k = 0 ∨ ∃ nodes, c.frame.stage.knows = some nodes) → c'.frame.position = k) := by
  by_cases hk : k = 0
  · subst hk
    exact ⟨true, c.rewound, Motion.runOn_moveTo_zero s up c, h.rewound, fun _ => by rw [rewound_frame]; rfl⟩
  · cases hknows : c.frame.stage.knows with
    | some nodes =>
      have hknown : Motion.knownAt? k c.frame.stage = some nodes[k - 1]? := by
        rw [← Stage.knows_knownAt hknows, Nat.sub_add_cancel (Nat.pos_of_ne_zero hk)]
      refine ⟨_, _, Motion.runOn_moveTo_known s up hk hknown, ⟨⟨?_, h.restarted, fun _ => ⟨nodes, hknows⟩⟩, rfl⟩,
        fun _ => rfl⟩
      show c.frame.progress.entered = .exhausted
      rw [h.exhausted]
      rfl
    | none =>
      -- A stage without known nodes that is over has no position, and its search ends with the first look.
      have hposition : c.frame.position = 0 := by
        by_contra hne
        obtain ⟨nodes, hnodes⟩ := h.idle hne
        cases hknows.symm.trans hnodes
      refine ⟨false, c, fun st => ?_, h.remains, fun hor => ?_⟩
      · have hround : (do
            if (← Walk.frame).position < k then
              if ← up.advanceNode s then pure none else pure (some false)
            else pure (some true) : Walk (Option Bool)).runOn c st = (.ok (some false), c, st) := by
          rw [Walk.runOn_frame_bind, hposition, if_pos (Nat.pos_of_ne_zero hk), Walk.runOn_bind, h.runOn_advanceNode]
          rfl
        rw [Motion.runOn_moveTo_unknown s up hk (Stage.knownAt?_of_knows_eq_none hknows k), hposition,
          if_neg (by simpa using hk), if_neg (Nat.not_lt_zero k)]
        exact Walk.runOn_repeatUntil_some hround
      · rcases hor with hzero | ⟨nodes, hnodes⟩
        · exact absurd hzero hk
        · cases hnodes

theorem exists_nodeHere (h : c.Over start) (s : Surroundings) (up : Motion) :
    ∃ p? c', (∀ st, (up.nodeHere s).runOn c st = (.ok p?, c', st)) ∧ RemainsOver start c c' := by
  have hmoved : ∃ p? c', (∀ st, (do
      if c.frame.position == 0 then
        if !(← up.moveTo s 1) then return none
      pure (← Walk.frame).current : Walk (Option Pointer)).runOn c st = (.ok p?, c', st)) ∧ RemainsOver start c c' := by
    by_cases hzero : c.frame.position = 0
    · obtain ⟨found, c', hmove, hremains, -⟩ := h.exists_moveTo s up 1
      refine ⟨if found then c'.frame.current else none, c', fun st => ?_, hremains⟩
      rw [if_pos (by simpa using hzero), Walk.runOn_bind, hmove]
      cases found <;> rfl
    · refine ⟨c.frame.current, c, fun st => ?_, h.remains⟩
      rw [if_neg (by simpa using hzero)]
      rfl
  by_cases horigin : ∃ origin, c.frame.stage = .start origin none
  · obtain ⟨origin, hstage⟩ := horigin
    refine ⟨some origin, c, fun st => ?_, h.remains⟩
    rw [Motion.nodeHere, Walk.runOn_frame_bind, hstage]
    rfl
  · obtain ⟨p?, c', hrun, hremains⟩ := hmoved
    refine ⟨p?, c', fun st => ?_, hremains⟩
    rw [Motion.nodeHere, Walk.runOn_frame_bind]
    split
    · exact absurd ⟨_, ‹c.frame.stage = _›⟩ horigin
    · exact hrun st

/-- **Listing the set** lists nothing, and comes back to the position. -/
theorem exists_listSet (h : c.Over start) (s : Surroundings) (up : Motion) :
    ∃ c', (∀ st, (up.next s).listSet.runOn c st = (.ok [], c', st)) ∧ RemainsOver start c c' ∧
      c'.frame.position = c.frame.position := by
  have hcollect : ∀ {d}, d.Over start → ∀ st, (Walk.collectAll (up.next s).take).runOn d st = (.ok [], d, st) := by
    intro d hd st
    refine Walk.runOn_collectAll_none ?_
    show ((up.next s).nextNode >>= _).runOn d st = _
    rw [Walk.runOn_bind, show (up.next s).nextNode.runOn d st = _ from hd.runOn_advanceNode s up st]
    rfl
  by_cases hzero : c.frame.position = 0
  · refine ⟨c.rewound, fun st => ?_, h.rewound, by rw [hzero, rewound_frame]; rfl⟩
    rw [Motion.listSet, Walk.runOn_frame_bind, hzero]
    show ((Walk.collectAll (up.next s).take) >>= _).runOn c st = _
    rw [Walk.runOn_bind, hcollect h]
    dsimp only
    rw [Walk.runOn_bind, show ((up.next s).setPosition 0).runOn c st = _ from Motion.runOn_moveTo_zero s up c st]
    rfl
  · obtain ⟨found, c', hmove, hremains, hposition⟩ := h.rewound.isOver.exists_moveTo s up c.frame.position
    have hknown : ∃ nodes, c.rewound.frame.stage.knows = some nodes := by
      obtain ⟨nodes, hnodes⟩ := h.idle hzero
      refine ⟨nodes, ?_⟩
      rw [rewound_frame]
      exact (congrArg Stage.knows (Stage.knows_rewound hnodes)).trans hnodes
    refine ⟨c', fun st => ?_, ⟨hremains.isOver, hremains.sorted.trans h.rewound.sorted⟩, hposition (.inr hknown)⟩
    rw [Motion.listSet, Walk.runOn_frame_bind]
    show Walk.runOn (if c.frame.position != 0 then _ else _) c st = _
    rw [if_pos (by simpa using hzero)]
    show Walk.runOn (Walk.move Cursor.rewound >>= _) c st = _
    rw [Walk.runOn_bind, Walk.runOn_move]
    show Walk.runOn ((Walk.collectAll (up.next s).take) >>= _) c.rewound st = _
    rw [Walk.runOn_bind, hcollect h.rewound.isOver]
    dsimp only
    rw [Walk.runOn_bind, show ((up.next s).setPosition c.frame.position).runOn c.rewound st = _ from hmove st]
    rfl

theorem runOn_enter (h : c.Over start) (s : Surroundings) (up : Motion) (st : Store) :
    (up.next s).enter.runOn c st = (.ok false, c.rewound, st) := by
  refine Walk.runOn_repeatUntil_some ?_
  rw [Walk.runOn_bind, show (up.next s).nextSet.runOn c st = _ from h.runOn_advanceSet up st]
  rfl

theorem runOn_pull (h : c.Over start) (s : Surroundings) (up : Motion) (st : Store) :
    (up.next s).pull.runOn c st = (.ok none, c.rewound, st) := by
  have hadvance : (up.next s).advance.runOn c st = (.ok false, c.rewound, st) := by
    rw [Motion.advance_eq, Walk.runOn_frame_bind]
    cases c.frame.position != 0 with
    | false => exact h.runOn_enter s up st
    | true =>
      show Walk.runOn ((up.next s).nextNode >>= _) c st = _
      rw [Walk.runOn_bind, show (up.next s).nextNode.runOn c st = _ from h.runOn_advanceNode s up st]
      exact h.runOn_enter s up st
  rw [Motion.pull, Walk.runOn_bind, hadvance]
  rfl

theorem runOn_drain (h : c.Over start) (s : Surroundings) (up : Motion) (st : Store) :
    (up.next s).drain.runOn c st = (.ok [], c.rewound, st) := by
  rw [Motion.drain, Walk.runOn_bind, h.runOn_enter]
  rfl

/-- Nothing is sorted, unless that was done before. -/
theorem exists_prepare (h : c.Over start) (s : Surroundings) (up : Motion) :
    ∃ c', (∀ st, (up.next s).prepare.runOn c st = (.ok (), c', st)) ∧ c'.Over start ∧
      c'.frame.sorted.getD [] = c.frame.sorted.getD [] := by
  by_cases hneeded : (c.frame.sorted.isNone && c.order != .unordered) = true
  · refine ⟨{ c.rewound with frame := { c.rewound.frame with sorted := some [] } }, fun st => ?_,
      h.rewound.isOver.holding _, ?_⟩
    · have hsorted : ((up.next s).sortedNodes c.order).runOn c st = (.ok [], c.rewound, st) := by
        rw [Motion.sortedNodes, Walk.runOn_bind, h.runOn_drain]
        dsimp only
        rw [Walk.runOn_bind, Walk.runOn_store]
        cases c.order <;> rfl
      rw [Motion.prepare, Walk.runOn_cursor_bind, Walk.runOn_frame_bind, if_pos hneeded, Walk.runOn_bind,
        Walk.runOn_attempt, hsorted]
      rfl
    · rw [Option.isNone_iff_eq_none.mp (Bool.and_eq_true_iff.mp hneeded).1]
      rfl
  · refine ⟨c, fun st => ?_, h, rfl⟩
    rw [Motion.prepare, Walk.runOn_cursor_bind, Walk.runOn_frame_bind, if_neg hneeded]
    rfl

/-- **Delivering** takes what is left of the list. -/
theorem exists_deliver (h : c.Over start) (s : Surroundings) (up : Motion) :
    ∃ c', (∀ st, (up.next s).deliver.runOn c st = (.ok (c.frame.sorted.getD []).head?, c', st)) ∧ c'.Over start ∧
      c'.frame.sorted.getD [] = (c.frame.sorted.getD []).tail := by
  obtain ⟨c₁, hprepare, hover, hsorted⟩ := h.exists_prepare s up
  rw [← hsorted]
  cases hlist : c₁.frame.sorted with
  | some nodes =>
    refine ⟨{ c₁ with frame := { c₁.frame with sorted := some (nodes.drop 1) } }, fun st => ?_, hover.holding _,
      List.drop_one⟩
    rw [Motion.deliver, Walk.runOn_bind, hprepare]
    dsimp only
    rw [Walk.runOn_frame_bind, hlist]
    rfl
  | none =>
    refine ⟨c₁.rewound, fun st => ?_, hover.rewound.isOver, by rw [hover.rewound.sorted, hlist]; rfl⟩
    rw [Motion.deliver, Walk.runOn_bind, hprepare]
    dsimp only
    rw [Walk.runOn_frame_bind, hlist]
    exact hover.runOn_pull s up st

/-- **All nodes** are none, whatever list is held. -/
theorem runOn_nodeSet (h : c.Over start) (hposition : c.frame.position = 0) (s : Surroundings) (up : Motion) (st : Store) :
    (up.next s).nodeSet.runOn c st = (.ok [], start, st) := by
  rw [Motion.nodeSet, Walk.runOn_frame_bind, hposition]
  show Walk.runOn (Walk.cursor >>= _) c st = _
  rw [Walk.runOn_cursor_bind, Walk.runOn_bind, Walk.runOn_attempt, h.runOn_drain]
  dsimp only
  rw [Walk.runOn_bind, Walk.runOn_move, restarted_rewound, h.restarted]
  cases c.order <;> rfl

end Over

end Cursor

/-! ## §B  What is left at a place -/

namespace Place

variable {sets : List (List Pointer)} {p : Place}

/-- **left** are the nodes that a cursor at a place has left when it is asked for one after the other. From before the
first node of a set it goes on to the next set. -/
def left (sets : List (List Pointer)) (p : Place) : List Pointer :=
  if p.position = 0 then p.later sets else p.rest sets

theorem atNode_of_position (h : p.position ≠ 0) : p.AtNode := by
  rintro j i rfl
  exact Nat.pos_of_ne_zero h

theorem left_within (j i : Nat) : (within j (i + 1)).left sets = rest sets (.within j (i + 1)) := if_neg (Nat.succ_ne_zero i)

/-- What is left are the last nodes of all. -/
theorem later_suffix (p : Place) : p.later sets <:+ sets.flatten := by
  have hdrop : ∀ k, (sets.drop k).flatten <:+ sets.flatten := fun k =>
    ⟨(sets.take k).flatten, by rw [← List.flatten_append, List.take_append_drop]⟩
  cases p with
  | before => exact List.suffix_refl _
  | within j i => exact hdrop (j + 1)
  | after => exact List.nil_suffix

theorem left_suffix (p : Place) : p.left sets <:+ sets.flatten := by
  unfold left
  split
  · exact p.later_suffix
  · cases p with
    | before => exact List.suffix_refl _
    | after => exact List.nil_suffix
    | within j i =>
      have hset : nthSet sets j ++ later sets (within j i) <:+ sets.flatten := by
        by_cases hj : j < sets.length
        · rw [show later sets (within j i) = later sets (within j 0) from rfl, nthSet_append_later hj]
          exact ⟨(sets.take j).flatten, by rw [← List.flatten_append, List.take_append_drop]⟩
        · have hnil : nthSet sets j = [] := by rw [nthSet, List.getElem?_eq_none (Nat.le_of_not_lt hj)]; rfl
          rw [hnil]
          exact later_suffix (within j i)
      refine List.IsSuffix.trans ⟨(nthSet sets j).take i, ?_⟩ hset
      rw [rest, ← List.append_assoc, List.take_append_drop]

/-- **toDeliver** are the nodes that a cursor of an order delivers from a place on. To deliver them in document order,
it takes those of the next set and all behind it. -/
def toDeliver (all : List Pointer) (order : Order) (sets : List (List Pointer)) (p : Place) : List Pointer :=
  if order = .unordered then p.left sets else arranged all order (p.later sets)

end Place

/-- More nodes are arranged to no fewer. -/
theorem arranged_length_le {all ps qs : List Pointer} {order : Order} (horder : order ≠ .unordered)
    (h : ∀ p ∈ ps, p ∈ qs) : (arranged all order ps).length ≤ (arranged all order qs).length := by
  have hfilter : (all.filter ps.contains).length ≤ (all.filter qs.contains).length := by
    refine (List.monotone_filter_right all fun p hp => ?_).length_le
    rw [List.contains_iff_exists_mem_beq] at hp ⊢
    obtain ⟨q, hq, hbeq⟩ := hp
    exact ⟨q, h q hq, hbeq⟩
  cases order with
  | unordered => exact absurd rfl horder
  | ascending => exact hfilter
  | descending => simpa only [arranged, List.length_reverse] using hfilter

/-! ## §C  Pending nodes -/

/-- **Pending** says which nodes a cursor still delivers: those behind its place, or those of the list that it holds. -/
inductive Pending (all : List Pointer) (stands : Cursor → Place → Prop) (sets : List (List Pointer)) (start : Cursor) :
    List Pointer → Cursor → Prop
  | walking {c : Cursor} {p : Place} : stands c p →
    Pending all stands sets start (p.toDeliver all start.order sets) c
  | finished {c : Cursor} : c.Over start → (c.frame.sorted.getD []).length < Walk.limit →
    Pending all stands sets start (c.frame.sorted.getD []) c

/-- **Roams** says that a cursor can be sent anywhere without an error, and that it can deliver all its nodes. -/
structure Roams (base : Store) (s : Surroundings) (up : Motion) (all : List Pointer) (stands : Cursor → Place → Prop)
    (sets : List (List Pointer)) (start : Cursor) : Prop where
  traverses : Traverses base (up.next s) stands sets
  unfailing : Unfailing base (up.next s) stands sets
  restarted : ∀ {c p}, stands c p → c.restarted = start
  begins : stands start .before
  setPosition : ∀ {c p}, stands c p → ∀ k, ((up.next s).setPosition k).Yields base c fun _ c' =>
    ∃ l, Pending all stands sets start l c'
  current : ∀ {c p}, stands c p → (up.next s).current.Yields base c fun _ c' => ∃ l, Pending all stands sets start l c'
  listSet : ∀ {c p}, stands c p → (up.next s).listSet.Yields base c fun _ c' => stands c' (p.entered sets)
  charted : Charted base s all
  among : ∀ p ∈ sets.flatten, p ∈ all
  /-- A repetition has a round for each node. -/
  short : sets.flatten.length ≤ Walk.limit ∧ (arranged all start.order sets.flatten).length < Walk.limit

section

variable {base : Store} {s : Surroundings} {up m : Motion} {all l : List Pointer} {stands : Cursor → Place → Prop}
  {sets : List (List Pointer)} {start c : Cursor} {p : Place} {st : Store}

/-! ## §D  Pulling and draining -/

/-- Going on takes the first of the nodes that are left. -/
theorem Traverses.advanceLeft (h : Traverses base m stands sets) (hc : stands c p) :
    m.advance.Ensures base c fun found c' =>
      (found = true ∧ ∃ j i q, stands c' (.within j (i + 1)) ∧ (nthSet sets j)[i]? = some q ∧
        p.left sets = q :: Place.left sets (.within j (i + 1))) ∨
      (found = false ∧ stands c' .after ∧ p.left sets = []) := by
  unfold Place.left
  by_cases hp : p.position = 0
  · rw [Motion.advance_eq]
    refine .frame_bind ?_
    rw [(h.faces hc).position_eq, hp, if_pos rfl]
    refine (h.enter hc).mono fun found c' hc' => ?_
    rcases hc' with ⟨hfound, j, q, hc', hq, hlater⟩ | hend
    · exact .inl ⟨hfound, j, 0, q, hc', hq, hlater⟩
    · exact .inr hend
  · rw [if_neg hp]
    exact h.advance hc (Place.atNode_of_position hp)

namespace Unfailing

/-- **Pulling** takes the first of the nodes that are left. -/
theorem pull (hu : Unfailing base m stands sets) (h : Traverses base m stands sets) (hc : stands c p) :
    m.pull.Yields base c fun q? c' => q? = (p.left sets).head? ∧
      if p.left sets = [] then stands c' .after else ∃ q, stands c' q ∧ q.left sets = (p.left sets).tail := by
  have hworks : m.advance.Works base c := by
    rw [Motion.advance_eq]
    exact .frame_bind (hu.nextOrigin h hc _)
  have hadvance : m.advance.Yields base c _ := ⟨hworks, h.advanceLeft hc⟩
  refine hadvance.bind fun found c' hc' => ?_
  rcases hc' with ⟨rfl, j, i, q, hc', hq, hleft⟩ | ⟨rfl, hc', hleft⟩
  · refine .frame_bind (.pure ⟨?_, ?_⟩)
    · rw [(h.faces hc').2.2.2, if_neg (Nat.succ_ne_zero i), hleft]
      exact hq
    · rw [hleft, if_neg (List.cons_ne_nil _ _)]
      exact ⟨_, hc', rfl⟩
  · rw [hleft]
    exact .pure ⟨rfl, hc'⟩

/-- **Draining** takes all nodes from the next set on. -/
theorem drain (hu : Unfailing base m stands sets) (h : Traverses base m stands sets) (hc : stands c p)
    (hshort : sets.flatten.length ≤ Walk.limit) :
    m.drain.Yields base c fun nodes c' => nodes = p.later sets ∧ stands c' .after := by
  have henter : m.enter.Yields base c _ := ⟨hu.enter h hc, h.enter hc⟩
  refine henter.bind fun found c' hc' => ?_
  rcases hc' with ⟨rfl, j, q, hc', hq, hlater⟩ | ⟨rfl, hc', hlater⟩
  · have hlength : (Place.rest sets (.within j 1)).length < Walk.limit := by
      have hle := (@Place.later_suffix sets p).length_le
      rw [hlater, List.length_cons] at hle
      omega
    refine .frame_bind ((Walk.Yields.collectAll (I := fun l c => ∃ q, stands c q ∧ q.left sets = l)
      (J := fun c => stands c .after) ?_ hlength ⟨_, hc', Place.left_within j 0⟩).bind fun nodes c'' hc'' => ?_)
    · rintro _ c ⟨q, hc, rfl⟩
      exact hu.pull h hc
    · obtain ⟨rfl, hc''⟩ := hc''
      refine .pure ⟨?_, hc''⟩
      rw [(h.faces hc').2.2.2, hlater]
      exact congrArg (·.toList ++ _) hq
  · exact .pure ⟨hlater.symm, hc'⟩

end Unfailing

/-! ## §E  Delivery -/

/-- What delivers the nodes of a list one by one delivers all of them up to an error, and there is none. -/
theorem Walk.Yields.deliverUpTo {I : List Pointer → Cursor → Prop}
    (hm : ∀ l c, I l c → m.deliver.Yields base c fun q? c' => q? = l.head? ∧ I l.tail c') {times : Nat}
    {taken : List Pointer} (hlength : l.length < times) (hc : I l c) :
    (m.deliverUpTo times taken).Yields base c fun delivered _ => delivered = (taken.reverse ++ l, none) := by
  induction times generalizing l taken c with
  | zero => exact absurd hlength (Nat.not_lt_zero _)
  | succ times ih =>
    refine (hm l c hc).attempt_bind fun q? c' hc' => ?_
    obtain ⟨rfl, hc'⟩ := hc'
    cases l with
    | nil => exact .pure (by simp)
    | cons q l =>
      have hrest := @ih l c' (q :: taken) (by simpa using hlength) hc'
      exact hrest.mono fun delivered c'' hd => by simpa using hd

/-- All nodes are refused at a position, and nothing is touched. -/
theorem Motion.runOn_nodeSet_of_position (hposition : c.frame.position ≠ 0) :
    m.nodeSet.runOn c st = (.error .concurrentIteration, c, st) := by
  rw [Motion.nodeSet, Walk.runOn_frame_bind]
  show Walk.runOn (if c.frame.position != 0 then _ else _) c st = _
  rw [if_pos (by simpa using hposition)]
  rfl

/-- All nodes are those that a cursor drains, in its order. It is left restarted. -/
theorem Charted.nodeSet (hg : Charted base s all) {ps : List Pointer} {Q : Cursor → Prop} (hposition : c.frame.position = 0)
    (hps : ∀ p ∈ ps, p ∈ all) (hdrain : m.drain.Yields base c fun nodes c' => nodes = ps ∧ Q c'.restarted) :
    m.nodeSet.Yields base c fun nodes c' => nodes = arranged all c.order ps ∧ Q c' := by
  have hnodes : (do
      let drained ← Walk.attempt m.drain
      Walk.move Cursor.restarted
      let nodes ← Walk.ofExcept drained
      if c.order == .unordered then pure nodes
      else Walk.ofExcept (NodePath.sortDistinct (← Walk.store) nodes c.order) : Walk (List Pointer)).Yields base c
        fun nodes c' => nodes = arranged all c.order ps ∧ Q c' := by
    refine hdrain.attempt_bind fun nodes c' hc' => .move_bind ?_
    obtain ⟨rfl, hstart⟩ := hc'
    show Walk.Yields base (if c.order == .unordered then _ else _) _ _
    refine .ite (fun ho => ?_) fun ho => .store_bind fun st hst => ?_
    · rw [eq_of_beq ho]
      exact .pure ⟨rfl, hstart⟩
    · rw [hg.sortDistinct hps (fun he => ho (by rw [he]; rfl)) hst]
      exact .pure ⟨rfl, hstart⟩
  refine hnodes.congr fun st => ?_
  rw [Motion.nodeSet, Walk.runOn_frame_bind, hposition]
  rfl

namespace Roams

/-- A cursor behind its last set is over. -/
theorem over_of_after (h : Roams base s up all stands sets start) (hc : stands c .after) : c.Over start where
  exhausted := (h.traverses.faces hc).1
  restarted := h.restarted hc
  idle hne := absurd (h.traverses.faces hc).2.1 hne

theorem order_eq (h : Roams base s up all stands sets start) (hc : stands c p) : c.order = start.order := by
  rw [← h.restarted hc, Cursor.order_restarted]

theorem among_later (h : Roams base s up all stands sets start) (p : Place) : ∀ q ∈ p.later sets, q ∈ all := fun q hq =>
  h.among q (p.later_suffix.subset hq)

/-- What is pending can be delivered. -/
theorem length_lt (h : Roams base s up all stands sets start) (hc : Pending all stands sets start l c) :
    l.length < Walk.limit := by
  cases hc with
  | finished _ hlength => exact hlength
  | @walking _ p hc =>
    have hshort := h.short.2
    unfold Place.toDeliver
    split
    · rw [‹start.order = _›] at hshort
      exact Nat.lt_of_le_of_lt p.left_suffix.length_le hshort
    · refine Nat.lt_of_le_of_lt (arranged_length_le ‹_› fun q hq => ?_) hshort
      exact p.later_suffix.subset hq

/-- **Preparing** makes a list of the nodes of all sets to come. -/
theorem prepare (h : Roams base s up all stands sets start) (horder : start.order ≠ .unordered) (hc : stands c p) :
    (up.next s).prepare.Yields base c fun _ c' =>
      c'.Over start ∧ c'.frame.sorted = some (p.toDeliver all start.order sets) := by
  have hneeded : (c.frame.sorted.isNone && c.order != .unordered) = true := by
    rw [h.traverses.unsorted hc, h.order_eq hc]
    simpa using horder
  have hsorted : ((up.next s).sortedNodes c.order).Yields base c fun nodes c' =>
      nodes = p.toDeliver all start.order sets ∧ stands c' .after := by
    refine (h.unfailing.drain h.traverses hc h.short.1).bind fun nodes c' hc' => .store_bind fun st hst => ?_
    obtain ⟨rfl, hc'⟩ := hc'
    rw [h.order_eq hc, h.charted.sortDistinct (h.among_later p) horder hst]
    exact .pure ⟨(if_neg horder).symm, hc'⟩
  show Walk.Yields base (Walk.cursor >>= _) c _
  refine .congr (.frame_bind (.ite (fun _ => hsorted.attempt_bind fun nodes c' hc' => ?_) fun hnot => ?_))
    fun st => Walk.runOn_cursor_bind _ c st
  · obtain ⟨rfl, hc'⟩ := hc'
    exact .of_runOn (fun st => Walk.runOn_modifyFrame _ _ _) ⟨(h.over_of_after hc').holding _, rfl⟩
  · exact absurd hneeded hnot

/-- **Delivering** takes the first of the nodes that are pending. -/
theorem deliver (h : Roams base s up all stands sets start) (hc : Pending all stands sets start l c) :
    (up.next s).deliver.Yields base c fun q? c' => q? = l.head? ∧ Pending all stands sets start l.tail c' := by
  have hlength := h.length_lt hc
  cases hc with
  | finished hover =>
    obtain ⟨c', hrun, hover', hsorted⟩ := hover.exists_deliver s up
    refine .of_runOn hrun ⟨rfl, ?_⟩
    rw [← hsorted]
    refine .finished hover' ?_
    rw [hsorted, List.length_tail]
    omega
  | @walking _ p hc =>
    -- In no order the next node is pulled. In document order all nodes are sorted first, and then the cursor is over.
    by_cases horder : start.order = .unordered
    · have hpull : (up.next s).pull.Yields base c fun q? c' => q? = (p.toDeliver all start.order sets).head? ∧
          Pending all stands sets start (p.toDeliver all start.order sets).tail c' := by
        have hdeliver : ∀ q : Place, q.toDeliver all start.order sets = q.left sets := fun q => if_pos horder
        refine (h.unfailing.pull h.traverses hc).mono fun q? c' hc' => ?_
        rw [hdeliver]
        refine ⟨hc'.1, ?_⟩
        split at hc'
        · rw [‹p.left sets = []›, List.tail_nil, ← show Place.after.toDeliver all start.order sets = [] from hdeliver .after]
          exact .walking hc'.2
        · obtain ⟨-, q, hc', hq⟩ := hc'
          rw [← hq, ← hdeliver]
          exact .walking hc'
      exact hpull.congr fun st => Motion.runOn_deliver_of_unordered _ (h.traverses.unsorted hc) ((h.order_eq hc).trans horder) st
    · refine (h.prepare horder hc).bind fun _ c' hc' => .frame_bind ?_
      obtain ⟨hover, hsorted⟩ := hc'
      rw [hsorted]
      refine .move_bind (.pure ⟨rfl, ?_⟩)
      rw [List.drop_one]
      refine Pending.finished (hover.holding (some _)) (Nat.lt_of_le_of_lt ?_ hlength)
      show (p.toDeliver all start.order sets).tail.length ≤ _
      rw [List.length_tail]
      exact Nat.sub_le _ _

/-- **All that is still delivered** is what is pending. -/
theorem deliverRest (h : Roams base s up all stands sets start) (hc : Pending all stands sets start l c) :
    (up.next s).deliverRest.Yields base c fun delivered _ => delivered = (l, none) :=
  Walk.Yields.deliverUpTo (fun _ _ => h.deliver) (h.length_lt hc) hc

/-! ## §F  All nodes, and the list of the set -/

/-- **Taking all nodes** at no position takes what is pending, unless that is a list that the cursor holds, and leaves
the cursor where it started. -/
theorem nodeSet (h : Roams base s up all stands sets start) (hc : Pending all stands sets start l c)
    (hposition : c.frame.position = 0) :
    (up.next s).nodeSet.Yields base c fun nodes c' =>
      nodes = (if c.frame.sorted = none then l else []) ∧ c' = start := by
  cases hc with
  | finished hover =>
    refine .of_runOn (hover.runOn_nodeSet hposition s up) ⟨?_, rfl⟩
    split
    · rw [‹c.frame.sorted = none›]
      rfl
    · rfl
  | @walking _ p hc =>
    rw [if_pos (h.traverses.unsorted hc)]
    have hplace : p.position = 0 := by rw [← (h.traverses.faces hc).position_eq]; exact hposition
    have hnodes := h.charted.nodeSet (Q := (· = start)) hposition (h.among_later p)
      ((h.unfailing.drain h.traverses hc h.short.1).mono fun _ _ hd => ⟨hd.1, h.restarted hd.2⟩)
    refine hnodes.mono fun nodes c' hc' => ⟨hc'.1.trans ?_, hc'.2⟩
    -- At no position, what is left are the nodes of the sets to come.
    rw [h.order_eq hc, Place.toDeliver, Place.left, if_pos hplace]
    cases start.order <;> rfl

/-- **Listing the set** keeps the position, and what is pending, but for a cursor that has not started: it enters its
first set, and what is pending is what is behind that. -/
theorem listing (h : Roams base s up all stands sets start) (hc : Pending all stands sets start l c) :
    (up.next s).listSet.Yields base c fun _ c' => c'.frame.position = c.frame.position ∧
      Pending all stands sets start
        (if c.frame.progress = .notStarted then (Place.before.nextSet sets).toDeliver all start.order sets else l) c' := by
  cases hc with
  | finished hover hlength =>
    obtain ⟨c', hrun, hremains, hposition⟩ := hover.exists_listSet s up
    refine .of_runOn hrun ⟨hposition, ?_⟩
    rw [if_neg (by rw [hover.exhausted]; exact Progress.noConfusion), ← hremains.sorted]
    exact .finished hremains.isOver (by rw [hremains.sorted]; exact hlength)
  | @walking _ p hc =>
    have hfaces := h.traverses.faces hc
    refine (h.listSet hc).mono fun _ c' hc' => ⟨?_, ?_⟩
    · rw [(h.traverses.faces hc').position_eq, hfaces.position_eq, Place.position_entered]
    · cases p with
      | before =>
        rw [if_pos hfaces.1]
        exact .walking hc'
      | within j i =>
        rw [if_neg (by rw [hfaces.1]; exact Progress.noConfusion)]
        exact .walking hc'
      | after =>
        rw [if_neg (by rw [hfaces.1]; exact Progress.noConfusion)]
        exact .walking hc'

end Roams

end

end NodePath
