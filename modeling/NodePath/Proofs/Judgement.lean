/-
# NodePath.Proofs.Judgement — a predicate sees only the list

A predicate is evaluated against the very stage that is being walked through, which it may rewind and replay. It
is judged there as it is against the bare list of the set: it asks for the node, the position and the size, and
for nothing else. The comparison is one-sided, since replaying a stage may fail where a list cannot.

* §A  `Grounded`.
* §B  Replaying a set.
* §C  A stage and a list answer the same questions.
* §D  The judgement of a stage is that of the list.
* §E  A predicate that does not depend on its context.
-/
import NodePath.Proofs.AlikeReading
import NodePath.Proofs.Eager
import NodePath.Proofs.Traversal

namespace NodePath

/-! ## §A  Grounded surroundings -/

/-- **Grounded** says that surroundings are natural in every store that extends a base, in which all variables hold
what is there. -/
structure Grounded (base : Store) (s : Surroundings) : Prop where
  closed : base.Closed
  sound : base.engine.Sound
  natural : ∀ w, base.Extends w.base → s.Natural w

theorem Slot.Within.mono {slot : Slot} {m n : Nat} (hmn : m ≤ n) (h : slot.Within m) : slot.Within n := by
  match slot with
  | .document d => exact lt_of_lt_of_le h hmn
  | .value (.pointer p) => exact Pointer.Within.mono hmn h
  | .value .null => trivial
  | .value (.boolean _) => trivial
  | .value (.number _) => trivial
  | .value (.text _) => trivial
  | .value (.object _) => trivial

/-- What extends a closed store is closed. -/
theorem Store.Extends.closed {base st : Store} (h : base.Extends st) (hc : base.Closed) : st.Closed :=
  fun v slot hs => (hc v slot (h.slot? v ▸ hs)).mono h.size_le

/-- An extension of the left store does not matter. -/
theorem World.Holds.extend_left {v : World} {st st₁ st' : Store} (h : v.Holds st st') (he : st.Extends st₁) :
    v.Holds st₁ st' where
  left := h.left.trans he
  right := h.right
  same hp := by
    obtain ⟨j, hj, hj'⟩ := h.same hp
    exact ⟨j, by rw [he.document? (h.lt_left hp), hj], hj'⟩

/-! ## §B  Replaying -/

section

variable {base : Store} {s : Surroundings} {m : Motion} {stands : Cursor → Place → Prop}
  {sets : List (List Pointer)} {c : Cursor} {j i : Nat}

/-- The next node of the set, as `listSet` asks for it. -/
def Motion.take (m : Motion) : Walk (Option Pointer) := do
  if ← m.nextNode then pure (← Walk.frame).current else pure none

theorem Traverses.take (h : Traverses base m stands sets) (hc : stands c (.within j i)) :
    m.take.Ensures base c fun p? c' => p? = ((nthSet sets j).drop i).head? ∧
      ∃ i', stands c' (.within j i') ∧ ((nthSet sets j).drop i).tail = (nthSet sets j).drop i' := by
  refine (h.nextNode_within hc).bind fun found c' hc' => ?_
  obtain ⟨rfl, -, hc'⟩ | ⟨rfl, hi, hc'⟩ := hc'
  · refine .frame_bind (.pure ⟨?_, i + 1, hc', by rw [List.tail_drop]⟩)
    rw [(h.faces hc').2.2.2, if_neg (Nat.succ_ne_zero i), List.head?_drop]
    rfl
  · have hnil : (nthSet sets j).drop i = [] := List.drop_eq_nil_of_le hi
    exact .pure ⟨by rw [hnil]; rfl, i, hc', by rw [hnil]; rfl⟩

/-- **listSet** lists the set, and leaves the cursor at its node. -/
theorem Traverses.listSet (h : Traverses base m stands sets) (hc : stands c (.within j (i + 1)))
    (hi : i < (nthSet sets j).length) :
    m.listSet.Ensures base c fun nodes c' => nodes = nthSet sets j ∧ stands c' (.within j (i + 1)) ∧
      (nthSet sets j).length < Walk.limit := by
  have hposition := (h.faces hc).2.1
  refine .frame_bind (.ite (fun _ => ?_) fun hz => ?_)
  · refine (Walk.Ensures.move (Q := fun _ c' => c' = c.rewound) rfl).bind fun _ c' hc' => ?_
    subst hc'
    have hcollect := Walk.Ensures.collectAll (m := m.take) (I := fun l c => ∃ i, stands c (.within j i) ∧
      l = (nthSet sets j).drop i) (c := c.rewound) (l := nthSet sets j)
      (by
        rintro l c ⟨i, hc, rfl⟩
        refine (h.take hc).mono fun p? c' hc' => ?_
        obtain ⟨hp, i', hc', htail⟩ := hc'
        exact ⟨hp, i', hc', htail⟩)
      ⟨0, h.rewound hc, rfl⟩
    refine hcollect.bind fun nodes c' hc' => ?_
    obtain ⟨rfl, ⟨i', hc', -⟩, hlimit⟩ := hc'
    rw [hposition]
    refine (h.setPosition hc' (i + 1)).bind fun found c'' hc'' => ?_
    obtain ⟨k, hc'', rfl, hk⟩ := hc''
    exact .pure ⟨rfl, hk (by simpa using Nat.succ_le_of_lt hi) ▸ hc'', hlimit⟩
  · exact absurd (by simp [hposition]) hz

/-! ## §C  The list alone -/

/-- How a cursor over a list moves. -/
abbrev listMotion (s : Surroundings) : Motion := .ofLength s 1

variable {nodes : List Pointer} {st : Store}

theorem runOn_current_at (hi : i < nodes.length) :
    (listMotion s).current.runOn (.at nodes (i + 1)) st = (.ok (some nodes[i]), .at nodes (i + 1), st) := by
  show (Walk.runOn (Motion.nodeHere s .still) _ _) = _
  simp [Motion.nodeHere, Cursor.at, Walk.runOn_bind, Walk.runOn_map, Except.map, hi]

theorem runOn_nextNode_at (k : Nat) :
    (listMotion s).nextNode.runOn (.at nodes k) st =
      if k < nodes.length then (.ok true, .at nodes (k + 1), st) else (.ok false, .at nodes k, st) := by
  show (Walk.runOn (Motion.advanceNode s .still) _ _) = _
  by_cases hk : k < nodes.length
  · simp [Motion.advanceNode, Motion.isInSet, Motion.produce, Cursor.at, Walk.runOn_bind, Walk.runOn_map,
      Except.map, hk]
  · simp [Motion.advanceNode, Motion.isInSet, Motion.produce, Cursor.at, Walk.runOn_bind, hk]

theorem runOn_take_at (k : Nat) :
    (listMotion s).take.runOn (.at nodes k) st =
      if k < nodes.length then (.ok nodes[k]?, .at nodes (k + 1), st) else (.ok none, .at nodes k, st) := by
  rw [Motion.take, Walk.runOn_bind, runOn_nextNode_at]
  by_cases hk : k < nodes.length
  · simp [hk, Walk.runOn_map, Except.map, Cursor.at]
  · simp [hk]

theorem runOn_collect_at (s : Surroundings) (st : Store) {times : Nat} (k : Nat) (taken : List Pointer)
    (hk : k ≤ nodes.length) (ht : nodes.length < k + times) :
    (Walk.collect (listMotion s).take times taken).runOn (.at nodes k) st =
      (.ok (taken.reverse ++ nodes.drop k), .at nodes nodes.length, st) := by
  -- Every round takes one node, so the rounds that are left are enough for the nodes that are left.
  induction times generalizing k taken with
  | zero => omega
  | succ times ih =>
    rw [Walk.collect, Walk.runOn_bind, runOn_take_at]
    by_cases hlt : k < nodes.length
    · rw [if_pos hlt, List.getElem?_eq_getElem hlt]
      show (Walk.collect _ times (nodes[k] :: taken)).runOn _ _ = _
      rw [ih (k + 1) _ hlt (by omega), List.drop_eq_getElem_cons hlt]
      simp
    · obtain rfl : k = nodes.length := by omega
      simp

theorem runOn_listSet_at (hi : i < nodes.length) (hlimit : nodes.length < Walk.limit) :
    (listMotion s).listSet.runOn (.at nodes (i + 1)) st = (.ok nodes, .at nodes (i + 1), st) := by
  have hcollect := runOn_collect_at s st 0 [] (Nat.zero_le nodes.length) (by simpa using hlimit)
  have hrewound : (Cursor.at nodes (i + 1)).rewound = .at nodes 0 := rfl
  have hset : ((listMotion s).setPosition (i + 1)).runOn (.at nodes nodes.length) st =
      (.ok true, .at nodes (i + 1), st) := by
    show (Walk.runOn (Motion.moveTo s .still (i + 1)) _ _) = _
    simp [Motion.moveTo, Motion.knownAt?, Cursor.at, Walk.runOn_bind, Walk.runOn_map, Except.map, hi]
  rw [Motion.listSet, Walk.runOn_bind, Walk.runOn_frame]
  show (Walk.runOn (Walk.move Cursor.rewound >>= fun _ => Walk.collectAll (listMotion s).take >>= fun nodes' =>
    (listMotion s).setPosition (i + 1) >>= fun _ => pure nodes') _ _) = _
  rw [Walk.runOn_bind, Walk.runOn_move, hrewound]
  dsimp only
  rw [Walk.runOn_bind, Walk.collectAll, hcollect]
  dsimp only
  rw [Walk.runOn_bind, hset]
  simp

/-! ## §D  The same judgement -/

/-- A stage at a position of a set, and the list of the set at that position. -/
def Link.listed (stands : Cursor → Place → Prop) (sets : List (List Pointer)) (j i : Nat) : Link where
  rel _ c d := stands c (.within j (i + 1)) ∧ d = .at (nthSet sets j) (i + 1)
  grow _ h := h

/-- **A stage answers what the list of its set answers.** -/
theorem Traverses.queries (h : Traverses base m stands sets) (closed : base.Closed)
    (hi : i < (nthSet sets j).length) (hp : (nthSet sets j)[i].Within base.documents.size) :
    Queries (.only base closed) (.listed stands sets j i) True m (listMotion s) where
  current := by
    rintro v hv c _ st st' ⟨hc, rfl⟩ hst
    have hb : v.base = base := hv.base
    have hbase : base.Extends st := hb ▸ hst.left
    have hcurrent := h.current hc (nthSet sets j)[i] (List.getElem?_eq_getElem hi) st hbase
    rw [runOn_current_at hi]
    generalize m.current.runOn c st = run at hcurrent ⊢
    obtain ⟨r, c', st₁⟩ := run
    cases r with
    | error e => exact .inl ⟨trivial, e, rfl⟩
    | ok p? =>
      obtain ⟨hext, hc', rfl⟩ := hcurrent _ _ _ rfl
      exact .inr ⟨v, .refl v, ⟨hc', rfl⟩, hst.extend_left hext, .ok (.some (Pointer.Within.alike (hb ▸ hp)))⟩
  listSet := by
    rintro v hv c _ st st' ⟨hc, rfl⟩ hst
    have hb : v.base = base := hv.base
    have hbase : base.Extends st := hb ▸ hst.left
    have hlist := h.listSet hc hi st hbase
    generalize m.listSet.runOn c st = run at hlist ⊢
    obtain ⟨r, c', st₁⟩ := run
    cases r with
    | error e => exact .inl ⟨trivial, e, rfl⟩
    | ok nodes =>
      obtain ⟨hext, rfl, hc', hlimit⟩ := hlist _ _ _ rfl
      rw [runOn_listSet_at hi hlimit]
      exact .inr ⟨v, .refl v, ⟨hc', rfl⟩, hst.extend_left hext, .ok rfl⟩
  position := by
    rintro v c _ hv ⟨hc, rfl⟩
    exact (h.faces hc).2.1

/-- **Agrees** says that two judgements are the same number, or no numbers and equally true. -/
def Agrees (d : Datum) (st : Store) (r : Except EvalError Datum × Store) : Prop :=
  ∃ d', r.1 = .ok d' ∧ (∀ x, d = .number x ↔ d' = .number x) ∧ d.toBoolean st = d'.toBoolean r.2

theorem World.Holds.agrees {v : World} {st st' : Store} (h : v.Holds st st') {d d' : Datum} (hd : d.Alike v d') :
    Agrees d st (.ok d', st') :=
  ⟨d', rfl, fun x => by cases hd <;> simp, h.toBoolean hd⟩

/-- **A predicate is judged at a stage as it is at the list of the set.** -/
theorem Traverses.test (h : Traverses base m stands sets) (hs : Grounded base s) (e : Expr)
    (hc : stands c (.within j (i + 1))) (hi : i < (nthSet sets j).length)
    (hp : (nthSet sets j)[i].Within base.documents.size) {st : Store} (hst : base.Extends st)
    {d : Datum} {c' : Cursor} {st₁ : Store} (hrun : (s.test m e).runOn c st = (.ok d, c', st₁)) :
    st.Extends st₁ ∧ stands c' (.within j (i + 1)) ∧
      Agrees d st₁ (s.judge base e (nthSet sets j) (i + 1)) := by
  constructor
  -- The test is compared with itself for the store it leaves, and with the list of the set for its answer.
  · have hw : base.Extends (World.only st (hst.closed hs.closed)).base := hst
    have halike := (hs.natural _ hw).test _ .alike False m m e (.refl _) fun _ => (h.natural _ hw).queries
    obtain ⟨v, hv, -, hholds, -⟩ := StepAlike.run halike (.refl _) (h.settled hc _ hw)
      (World.holds_only (.refl hst.sound) (.refl hst.sound))
    rw [hrun] at hholds
    have hb : v.base = st := hv.base
    exact hb ▸ hholds.left
  · have hbase : base.Extends base := .refl hs.sound
    have hlist := (hs.natural (.only base hs.closed) hbase).test _ (.listed stands sets j i) True m (listMotion s) e
      (.refl _) fun _ => h.queries hs.closed hi hp
    have hres := hlist _ (.refl _) c (.at (nthSet sets j) (i + 1)) st base ⟨hc, rfl⟩ (World.holds_only hst hbase)
    rw [hrun] at hres
    rcases hres with ⟨-, e, he⟩ | ⟨v, hv, hlink, hholds, hr⟩
    · cases he
    · refine ⟨hlink.1, ?_⟩
      simp only [Surroundings.judge]
      generalize (s.test (.ofLength s 1) e).runOn (.at (nthSet sets j) (i + 1)) base = run at hholds hr ⊢
      obtain ⟨r', c₂, st₂⟩ := run
      cases hr with
      | ok hd => exact hholds.agrees hd

/-! ## §E  Constant predicates -/

/-- What does not depend on its context is judged alike everywhere. -/
theorem Grounded.judge_constant (hs : Grounded base s) {e : Expr} (he : e.isContextDependent = false)
    (nodes nodes' : List Pointer) (k k' : Nat) (x : Float) :
    (s.judge base e nodes k).1 = .ok (.number x) ↔ (s.judge base e nodes' k').1 = .ok (.number x) := by
  have hbase : base.Extends base := .refl hs.sound
  -- No link between the two cursors is needed, since the predicate asks neither of them anything.
  have halike := (hs.natural (.only base hs.closed) hbase).test _ ⟨fun _ _ _ => True, fun _ h => h⟩ False
    (listMotion s) (listMotion s) e (.refl _) fun hd => absurd hd (by simp [he])
  obtain ⟨v, -, -, -, hr⟩ := (halike _ (.refl _) (.at nodes k) (.at nodes' k') base base trivial
    (World.holds_only hbase hbase)).resolve_left fun hl => hl.1
  simp only [Surroundings.judge]
  generalize (s.test (.ofLength s 1) e).runOn (.at nodes k) base = run,
    (s.test (.ofLength s 1) e).runOn (.at nodes' k') base = run' at hr ⊢
  obtain ⟨r, c, st⟩ := run
  obtain ⟨r', c', st'⟩ := run'
  cases hr with
  | ok hd => cases hd <;> simp
  | error e => simp

end

end NodePath
