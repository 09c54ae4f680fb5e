/-
# NodePath.Proofs.KnownCursor — a stage that knows its nodes

A cursor without any step has one stage, which knows its nodes. Such a cursor takes every position, one behind its
last node as well, and one in a set that it has left. So it is no place among its sets, but it is always **knowing**:
how far it has come and its position are all there is to it, and every move is an equation.

* §A  `Cursor.knowing`.
* §B  Sets and nodes.
* §C  Positions.
* §D  The list of the set.
* §E  Moves.
* §F  Places.
-/
import NodePath.Proofs.RandomAccess
import NodePath.Proofs.Retracing

namespace NodePath

/-! ## §A  Knowing cursors -/

/-- **knowing** is a cursor at a position of the nodes that its only stage knows. -/
def Cursor.knowing (first : Stage) (nodes : List Pointer) (progress : Progress) (k : Nat) : Cursor :=
  ⟨⟨first, k, if k = 0 then none else nodes[k - 1]?, progress, none⟩, []⟩

namespace Progress

/-- How far a stage with one set has come when it has looked for its next set. -/
def advanced : Progress → Progress
  | notStarted => inSet
  | _ => exhausted

/-- How far a stage with one set has come when it has looked for a node. -/
def entered : Progress → Progress
  | notStarted => inSet
  | progress => progress

end Progress

/-- How far a cursor at a place has come with its sets. -/
def Place.progress : Place → Progress
  | before => .notStarted
  | within _ _ => .inSet
  | after => .exhausted

section

variable {first : Stage} {nodes : List Pointer} {progress : Progress} {k : Nat} {s : Surroundings} {st : Store}

theorem rewound_knowing (h : first.knows = some nodes) :
    (Cursor.knowing first nodes progress k).rewound = .knowing first nodes progress 0 := by
  cases first with
  | axis a t pending => cases h
  | condition e positional done => cases h
  | start origin members => rfl
  | known ps order => rfl

theorem restarted_knowing (h : first.knows = some nodes) :
    (Cursor.knowing first nodes progress k).restarted = .knowing first nodes .notStarted 0 := by
  simp only [Cursor.restarted, Cursor.knowing, Cursor.Frame.restarted, Stage.knows_rewound h, Frame.fresh, List.map_nil,
    if_pos]

/-! ## §B  Sets and nodes -/

theorem runOn_nextSet_knowing (s : Surroundings) (h : first.knows = some nodes) :
    (listMotion s).nextSet.runOn (.knowing first nodes progress k) st =
      (.ok (progress == .notStarted), .knowing first nodes progress.advanced 0, st) := by
  show Motion.still.advanceSet.runOn _ _ = _
  rw [Motion.advanceSet, Walk.runOn_bind, Walk.runOn_move, rewound_knowing h]
  dsimp only
  rw [Walk.runOn_frame_bind, Stage.knows_findSet h]
  cases progress <;> rfl

theorem runOn_isInSet_knowing (s : Surroundings) (h : first.knows = some nodes) (hk : progress = .notStarted → k = 0) :
    Motion.still.isInSet.runOn (.knowing first nodes progress k) st =
      (.ok (progress != .exhausted), .knowing first nodes progress.entered k, st) := by
  rw [Motion.isInSet, Walk.runOn_frame_bind]
  cases progress with
  | notStarted =>
    obtain rfl := hk rfl
    exact runOn_nextSet_knowing s h
  | inSet => rfl
  | exhausted => rfl

theorem runOn_nextNode_knowing (s : Surroundings) (st : Store) (h : first.knows = some nodes)
    (hk : progress = .notStarted → k = 0) :
    (listMotion s).nextNode.runOn (.knowing first nodes progress k) st =
      if progress ≠ .exhausted ∧ k < nodes.length then (.ok true, .knowing first nodes .inSet (k + 1), st)
      else (.ok false, .knowing first nodes progress.entered k, st) := by
  show (Motion.still.advanceNode s).runOn _ _ = _
  rw [Motion.advanceNode, Walk.runOn_bind, runOn_isInSet_knowing s h hk]
  have hin : progress ≠ .exhausted → (Motion.still.produce s).runOn (.knowing first nodes .inSet k) st =
      (.ok nodes[k]?, .knowing first nodes .inSet k, st) := fun _ =>
    Stage.runOn_produce (c := .knowing first nodes .inSet k) h st
  by_cases hlt : k < nodes.length
  · cases progress with
    | exhausted => rfl
    | _ =>
      rw [if_pos ⟨by decide, hlt⟩]
      show Walk.runOn (Motion.still.produce s >>= _) (.knowing first nodes .inSet k) st = _
      rw [Walk.runOn_bind, hin (by decide), List.getElem?_eq_getElem hlt]
      dsimp only
      rw [Walk.runOn_bind, Walk.runOn_modifyFrame]
      simp only [Cursor.knowing, Nat.succ_ne_zero, if_false, Nat.add_sub_cancel, List.getElem?_eq_getElem hlt]
      rfl
  · rw [if_neg fun hand => hlt hand.2]
    cases progress with
    | exhausted => rfl
    | _ =>
      show Walk.runOn (Motion.still.produce s >>= _) (.knowing first nodes .inSet k) st = _
      rw [Walk.runOn_bind, hin (by decide), List.getElem?_eq_none (Nat.le_of_not_lt hlt)]
      rfl

/-! ## §C  Positions -/

/-- Before the first node there is always a position. -/
theorem Motion.runOn_moveTo_zero (s : Surroundings) (up : Motion) (c : Cursor) (st : Store) :
    (up.moveTo s 0).runOn c st = (.ok true, c.rewound, st) := by
  rw [Motion.moveTo, Walk.runOn_frame_bind]
  rfl

/-- A stage that knows what is at a position takes it. -/
theorem Motion.runOn_moveTo_known (s : Surroundings) (up : Motion) {c : Cursor} {j : Nat} {found : Option Pointer}
    (hj : j ≠ 0) (h : Motion.knownAt? j c.frame.stage = some found) (st : Store) :
    (up.moveTo s j).runOn c st = (.ok found.isSome,
      { c with frame := { c.frame with
          position := j, current := found, progress := c.frame.progress.entered } }, st) := by
  rw [Motion.moveTo, Walk.runOn_frame_bind, if_neg (by simpa using hj), h]
  dsimp only
  rw [Walk.runOn_bind, Walk.runOn_modifyFrame]
  cases hprogress : c.frame.progress <;> rfl

/-- Every other stage goes on to the position, if need be from before its first node. -/
theorem Motion.runOn_moveTo_unknown (s : Surroundings) (up : Motion) {c : Cursor} {j : Nat} (hj : j ≠ 0)
    (h : Motion.knownAt? j c.frame.stage = none) (st : Store) :
    (up.moveTo s j).runOn c st =
      (if j == c.frame.position then pure c.frame.current.isSome
        else do
          if j < c.frame.position then Walk.move Cursor.rewound
          up.advanceTo s j : Walk Bool).runOn c st := by
  rw [Motion.moveTo, Walk.runOn_frame_bind, if_neg (by simpa using hj), h]

/-- **Going to a position** always succeeds, and tells whether a node is there. -/
theorem runOn_setPosition_knowing (s : Surroundings) (h : first.knows = some nodes) (j : Nat) :
    ((listMotion s).setPosition j).runOn (.knowing first nodes progress k) st =
      (.ok (j == 0 || nodes[j - 1]?.isSome),
        .knowing first nodes (if j = 0 then progress else progress.entered) j, st) := by
  show (Motion.still.moveTo s j).runOn _ _ = _
  cases j with
  | zero =>
    rw [Motion.runOn_moveTo_zero, rewound_knowing h]
    rfl
  | succ j => exact Motion.runOn_moveTo_known s .still (Nat.succ_ne_zero j) (Stage.knows_knownAt h j) st

/-- **The node at the position** is asked for without a move, unless the cursor is before the first node. -/
theorem exists_current_knowing (s : Surroundings) (h : first.knows = some nodes) (progress : Progress) (k : Nat) :
    ∃ p?, ∃ progress' k', (progress' = progress ∧ k' = k ∨ progress' = progress.entered ∧ k = 0 ∧ k' = 1) ∧
      ∀ st, (listMotion s).current.runOn (.knowing first nodes progress k) st =
        (.ok p?, .knowing first nodes progress' k', st) := by
  have hmoved : ∃ p?, ∃ progress' k', (progress' = progress ∧ k' = k ∨ progress' = progress.entered ∧ k = 0 ∧ k' = 1) ∧
      ∀ st, (do
        if k == 0 then
          if !(← (listMotion s).setPosition 1) then return none
        pure (← Walk.frame).current : Walk (Option Pointer)).runOn (.knowing first nodes progress k) st =
          (.ok p?, .knowing first nodes progress' k', st) := by
    cases k with
    | succ k => exact ⟨_, progress, k + 1, .inl ⟨rfl, rfl⟩, fun st => rfl⟩
    | zero =>
      refine ⟨nodes[0]?, progress.entered, 1, .inr ⟨rfl, rfl, rfl⟩, fun st => ?_⟩
      show Walk.runOn ((listMotion s).setPosition 1 >>= fun found =>
        if !found then pure none else Walk.frame >>= fun f => pure f.current) _ _ = _
      rw [Walk.runOn_bind, runOn_setPosition_knowing s h]
      show Walk.runOn (if !nodes[0]?.isSome then _ else _) (.knowing first nodes progress.entered 1) st = _
      cases hnode : nodes[0]? with
      | none => rfl
      | some p =>
        show (Except.ok (Cursor.knowing first nodes progress.entered 1).frame.current, _, _) = _
        rw [← hnode]
        rfl
  cases first with
  | axis a t pending => cases h
  | condition e positional done => cases h
  | known ps order => exact hmoved
  | start origin members =>
    cases members with
    | some members => exact hmoved
    | none => exact ⟨some origin, progress, k, .inl ⟨rfl, rfl⟩, fun st => rfl⟩

/-! ## §D  The list of the set -/

/-- One node of the set is taken, or there is none. -/
theorem runOn_take_knowing (s : Surroundings) (st : Store) (h : first.knows = some nodes)
    (hk : progress = .notStarted → k = 0) (hleft : progress ≠ .exhausted) :
    (listMotion s).take.runOn (.knowing first nodes progress k) st =
      (.ok nodes[k]?, .knowing first nodes .inSet (if k < nodes.length then k + 1 else k), st) := by
  rw [Motion.take, Walk.runOn_bind, runOn_nextNode_knowing s st h hk]
  by_cases hlt : k < nodes.length
  · rw [if_pos ⟨hleft, hlt⟩, if_pos hlt]
    rfl
  · rw [if_neg fun hand => hlt hand.2, if_neg hlt, List.getElem?_eq_none (Nat.le_of_not_lt hlt)]
    cases progress with
    | exhausted => exact absurd rfl hleft
    | _ => rfl

/-- What is taken one by one are the nodes behind the position. -/
theorem runOn_collect_knowing (s : Surroundings) (st : Store) (h : first.knows = some nodes) {times : Nat}
    (taken : List Pointer) (hk : progress = .notStarted → k = 0) (hleft : progress ≠ .exhausted)
    (ht : nodes.length < k + times) (htimes : 0 < times) :
    (Walk.collect (listMotion s).take times taken).runOn (.knowing first nodes progress k) st =
      (.ok (taken.reverse ++ nodes.drop k), .knowing first nodes .inSet (max k nodes.length), st) := by
  -- Every round takes one node, so the rounds that are left are enough for the nodes that are left.
  induction times generalizing progress k taken with
  | zero => omega
  | succ times ih =>
    rw [Walk.collect, Walk.runOn_bind, runOn_take_knowing s st h hk hleft]
    by_cases hlt : k < nodes.length
    · rw [if_pos hlt, List.getElem?_eq_getElem hlt]
      show (Walk.collect _ times (nodes[k] :: taken)).runOn _ _ = _
      rw [ih _ Progress.noConfusion Progress.noConfusion (by omega) (by omega), List.drop_eq_getElem_cons hlt,
        Nat.max_eq_right hlt, Nat.max_eq_right hlt.le]
      simp
    · have hle : nodes.length ≤ k := Nat.le_of_not_lt hlt
      rw [if_neg hlt, List.getElem?_eq_none hle, List.drop_eq_nil_of_le hle, Nat.max_eq_left hle, List.append_nil]
      rfl

/-- **Listing the set** leaves the cursor at its position. A set that was left has no nodes any more. -/
theorem runOn_listSet_knowing (s : Surroundings) (h : first.knows = some nodes) (hlimit : nodes.length < Walk.limit)
    (hk : progress = .notStarted → k = 0) :
    (listMotion s).listSet.runOn (.knowing first nodes progress k) st =
      (.ok (if progress = .exhausted then [] else nodes), .knowing first nodes progress.entered k, st) := by
  -- From before the first node on, the whole set is gone through, and then back to the position.
  have hlist : (do
      let nodes ← Walk.collectAll (listMotion s).take
      let _ ← (listMotion s).setPosition k
      pure nodes : Walk (List Pointer)).runOn (.knowing first nodes progress 0) st =
        (.ok (if progress = .exhausted then [] else nodes), .knowing first nodes progress.entered k, st) := by
    have hcollect : (Walk.collectAll (listMotion s).take).runOn (.knowing first nodes progress 0) st =
        (.ok (if progress = .exhausted then [] else nodes),
          .knowing first nodes progress.entered (if progress = .exhausted then 0 else nodes.length), st) := by
      cases progress with
      | exhausted => exact Walk.runOn_collectAll_none rfl
      | _ =>
        rw [Walk.collectAll, runOn_collect_knowing s st h [] (fun _ => rfl) (by decide) (by omega) (by decide)]
        simp [Progress.entered]
    rw [Walk.runOn_bind, hcollect]
    dsimp only
    rw [Walk.runOn_bind, runOn_setPosition_knowing s h]
    cases progress <;> simp [Progress.entered]
  rw [Motion.listSet, Walk.runOn_frame_bind]
  by_cases hzero : k = 0
  · subst hzero
    exact hlist
  · show Walk.runOn (if k != 0 then _ else _) _ _ = _
    rw [if_pos (by simpa using hzero)]
    show Walk.runOn (Walk.move Cursor.rewound >>= _) _ _ = _
    rw [Walk.runOn_bind, Walk.runOn_move, rewound_knowing h]
    exact hlist

/-! ## §E  Moves -/

/-- **IsKnowing** says that a cursor is at some position of the nodes that its only stage knows. -/
def IsKnowing (first : Stage) (nodes : List Pointer) (c : Cursor) : Prop :=
  ∃ progress k, c = .knowing first nodes progress k ∧ (progress = .notStarted → k = 0)

/-- **Every move** is made alike in all stores, and leads to a knowing cursor. -/
theorem IsKnowing.make {c : Cursor} (s : Surroundings) (h : first.knows = some nodes) (hlimit : nodes.length < Walk.limit)
    (hc : IsKnowing first nodes c) (a : Move) :
    ∃ answer c', IsKnowing first nodes c' ∧ ∀ st, ((listMotion s).make a).runOn c st = (.ok answer, c', st) := by
  obtain ⟨progress, k, rfl, hk⟩ := hc
  have hentered : ∀ j, IsKnowing first nodes (.knowing first nodes progress.entered j) := fun j =>
    ⟨_, _, rfl, fun he => by cases progress <;> cases he⟩
  -- A move changes progress and position only, and what it answers is told from them and the known nodes.
  cases a with
  | nextSet =>
    refine ⟨.found (progress == .notStarted), _, ⟨progress.advanced, 0, rfl, fun _ => rfl⟩, fun st => ?_⟩
    rw [Motion.make, Walk.runOn_bind, runOn_nextSet_knowing s h]
    rfl
  | nextNode =>
    have hnext := fun st => runOn_nextNode_knowing s st h hk
    by_cases hfound : progress ≠ .exhausted ∧ k < nodes.length
    · refine ⟨.found true, _, ⟨.inSet, k + 1, rfl, Progress.noConfusion⟩, fun st => ?_⟩
      rw [Motion.make, Walk.runOn_bind, hnext, if_pos hfound]
      rfl
    · refine ⟨.found false, _, hentered k, fun st => ?_⟩
      rw [Motion.make, Walk.runOn_bind, hnext, if_neg hfound]
      rfl
  | setPosition j =>
    refine ⟨.found (j == 0 || nodes[j - 1]?.isSome), .knowing first nodes (if j = 0 then progress else progress.entered) j,
      ?_, fun st => ?_⟩
    · by_cases hj : j = 0
      · exact ⟨_, _, rfl, fun _ => hj⟩
      · rw [if_neg hj]
        exact hentered j
    · rw [Motion.make, Walk.runOn_bind, runOn_setPosition_knowing s h]
      rfl
  | rewind =>
    refine ⟨.done, _, ⟨progress, 0, rfl, fun _ => rfl⟩, fun st => ?_⟩
    rw [← rewound_knowing h (k := k)]
    rfl
  | current =>
    obtain ⟨p?, progress', k', hmoved, hrun⟩ := exists_current_knowing s h progress k
    refine ⟨.node p?, .knowing first nodes progress' k', ?_, fun st => ?_⟩
    · rcases hmoved with ⟨rfl, rfl⟩ | ⟨rfl, -⟩
      · exact ⟨_, _, rfl, hk⟩
      · exact hentered k'
    · rw [Motion.make, Walk.runOn_bind, hrun]
      rfl
  | listSet =>
    refine ⟨.nodes (if progress = .exhausted then [] else nodes), _, hentered k, fun st => ?_⟩
    rw [Motion.make, Walk.runOn_bind, runOn_listSet_knowing s h hlimit hk]
    rfl
  | restart =>
    refine ⟨.done, _, ⟨.notStarted, 0, rfl, fun _ => rfl⟩, fun st => ?_⟩
    rw [← @restarted_knowing _ _ progress k h]
    rfl

/-- **Every sequence of moves** is answered alike in all stores. -/
theorem IsKnowing.answers {c : Cursor} (s : Surroundings) (h : first.knows = some nodes)
    (hlimit : nodes.length < Walk.limit) (hc : IsKnowing first nodes c) (moves : List Move) :
    ∃ answers c', IsKnowing first nodes c' ∧ ∀ st, ((listMotion s).answers moves).runOn c st = (.ok answers, c', st) := by
  induction moves generalizing c with
  | nil => exact ⟨[], c, hc, fun st => rfl⟩
  | cons a moves ih =>
    obtain ⟨answer, c₁, hc₁, hmake⟩ := hc.make s h hlimit a
    obtain ⟨answers, c₂, hc₂, hanswers⟩ := ih hc₁
    refine ⟨(answer, c₁.frame.position) :: answers, c₂, hc₂, fun st => ?_⟩
    rw [Motion.answers, Walk.runOn_bind, hmake]
    dsimp only
    rw [Walk.runOn_frame_bind, Walk.runOn_bind, hanswers]
    rfl

/-! ## §F  Places -/

/-- **A cursor at a place of known nodes** is the knowing cursor of that place. -/
theorem standsBy_knowsAt_iff {c : Cursor} {p : Place} : StandsBy (KnowsAt first) [nodes] c p ↔
    c = .knowing first nodes p.progress p.position ∧ ∀ j i, p = .within j i → j = 0 := by
  constructor
  · rintro ⟨⟨hstage, hearlier, hset⟩, hfaces, hsorted⟩
    refine ⟨?_, hset⟩
    obtain ⟨⟨stage, position, current, progress', sorted⟩, earlier⟩ := c
    obtain rfl : stage = first := hstage
    obtain rfl : earlier = [] := hearlier
    obtain rfl : sorted = none := hsorted
    cases p with
    | before =>
      obtain ⟨rfl, rfl, rfl⟩ : progress' = .notStarted ∧ position = 0 ∧ current = none := hfaces
      rfl
    | within j i =>
      obtain rfl := hset j i rfl
      obtain ⟨rfl, rfl, -, rfl⟩ : progress' = .inSet ∧ position = i ∧ _ ∧
        current = if i = 0 then none else nodes[i - 1]? := hfaces
      rfl
    | after =>
      obtain ⟨rfl, rfl, rfl⟩ : progress' = .exhausted ∧ position = 0 ∧ current = none := hfaces
      rfl
  · rintro ⟨rfl, hset⟩
    refine ⟨⟨rfl, rfl, hset⟩, ?_, rfl⟩
    cases p with
    | before => exact ⟨rfl, rfl, rfl⟩
    | within j i =>
      obtain rfl := hset j i rfl
      exact ⟨rfl, rfl, Nat.zero_lt_one, rfl⟩
    | after => exact ⟨rfl, rfl, rfl⟩

end

end NodePath
