/-
# NodePath.Proofs.Traversal — cursors that go through known sets

However lazily a cursor produces its nodes, from outside it goes through sets that could have been listed
beforehand: it stands before all of them, at a position of one of them, or behind them. **Traverses** says so of
a motion, for every way to move. What makes a motion traverse is a matter of its last stage alone, which
**Supplies** says: where its next set is, and what its next node is. Everything else, from rewinding to going to
a position, is the same for all stages.

* §A  `Place`: where a cursor stands among its sets.
* §B  `Traverses` and `Supplies`.
* §C  Sets.
* §D  Nodes.
* §E  Positions.
* §F  A stage that supplies makes a motion that traverses.
-/
import NodePath.Proofs.AlikeMotion
import NodePath.Proofs.Ensures

namespace NodePath

/-! ## §A  Places -/

/-- The set of a number; there are no nodes in a set that there is not. -/
def nthSet (sets : List (List Pointer)) (j : Nat) : List Pointer := sets[j]?.getD []

/-- **Place** is where a cursor stands: before its first set, at a position of a set (zero is before the first
node), or behind its last set. -/
inductive Place where
  | before
  | within (set position : Nat)
  | after

namespace Place

/-- Whether this is a place in a set. -/
def isWithin : Place → Bool
  | within _ _ => true
  | _ => false

/-- The place before the first node of the set. -/
def rewound : Place → Place
  | within j _ => within j 0
  | p => p

/-- The place before the first node of the next set. -/
def nextSet (sets : List (List Pointer)) : Place → Place
  | before => if 0 < sets.length then within 0 0 else after
  | within j _ => if j + 1 < sets.length then within (j + 1) 0 else after
  | after => after

/-- The place in a set, for a cursor that enters its first set when it has not started. -/
def entered (sets : List (List Pointer)) : Place → Place
  | before => nextSet sets before
  | p => p

/-- Whether there is a next node in the set. -/
def hasNext (sets : List (List Pointer)) : Place → Bool
  | within j i => i < (nthSet sets j).length
  | _ => false

/-- The place one node further. -/
def forward : Place → Place
  | within j i => within j (i + 1)
  | p => p

/-- The place at the next node of the set, or the same place when there is none. -/
def nextNode (sets : List (List Pointer)) (p : Place) : Place :=
  if (p.entered sets).hasNext sets then (p.entered sets).forward else p.entered sets

/-- In a set, there is a next node or the set is at its end. -/
theorem nextNode_cases {sets : List (List Pointer)} {j i : Nat} {found : Bool} {holds : Place → Prop}
    (h : holds ((within j i).nextNode sets) ∧ found = ((within j i).entered sets).hasNext sets) :
    (found = true ∧ i < (nthSet sets j).length ∧ holds (within j (i + 1))) ∨
      (found = false ∧ (nthSet sets j).length ≤ i ∧ holds (within j i)) := by
  obtain ⟨h, rfl⟩ := h
  simp only [nextNode, entered, hasNext, forward] at h ⊢
  by_cases hi : i < (nthSet sets j).length
  · exact .inl ⟨decide_eq_true hi, hi, by simpa [hi] using h⟩
  · exact .inr ⟨decide_eq_false hi, Nat.le_of_not_lt hi, by simpa [hi] using h⟩

end Place

/-- **Faces** says that a frame is that of a cursor at a place. -/
def Frame.Faces (sets : List (List Pointer)) (f : Frame) : Place → Prop
  | .before => f.progress = .notStarted ∧ f.position = 0 ∧ f.current = none
  | .within j i => f.progress = .inSet ∧ f.position = i ∧ j < sets.length ∧
      f.current = if i = 0 then none else (nthSet sets j)[i - 1]?
  | .after => f.progress = .exhausted ∧ f.position = 0 ∧ f.current = none

/-! ## §B  Traversal -/

section

variable (base : Store)

/-- **Traverses** says that a motion moves the cursors that `stands` places among `sets` as their places say. -/
structure Traverses (m : Motion) (stands : Cursor → Place → Prop) (sets : List (List Pointer)) : Prop where
  natural : ∀ w, base.Extends w.base → MotionAlike w m m
  settled : ∀ {c p}, stands c p → ∀ w, base.Extends w.base → c.Alike w c
  faces : ∀ {c p}, stands c p → c.frame.Faces sets p
  unsorted : ∀ {c p}, stands c p → c.frame.sorted = none
  order : ∀ {c p c' p'}, stands c p → stands c' p' → c.order = c'.order ∧ c.sortsNext = c'.sortsNext
  rewound : ∀ {c p}, stands c p → stands c.rewound p.rewound
  nextSet : ∀ {c p}, stands c p →
    m.nextSet.Ensures base c fun found c' => stands c' (p.nextSet sets) ∧ found = (p.nextSet sets).isWithin
  nextNode : ∀ {c p}, stands c p →
    m.nextNode.Ensures base c fun found c' =>
      stands c' (p.nextNode sets) ∧ found = (p.entered sets).hasNext sets
  setPosition : ∀ {c j i}, stands c (.within j i) → ∀ k,
    (m.setPosition k).Ensures base c fun found c' =>
      ∃ k', stands c' (.within j k') ∧ found = decide (k ≤ (nthSet sets j).length) ∧ (found = true → k' = k)
  current : ∀ {c j i}, stands c (.within j (i + 1)) → ∀ p, (nthSet sets j)[i]? = some p →
    m.current.Ensures base c fun p? c' => stands c' (.within j (i + 1)) ∧ p? = some p

/-- **Supplies** says that the last stage of a cursor, by what `holds` of it and of the stages before it, produces
the nodes of `sets`. The stages before it move as in `up`. -/
structure Supplies (s : Surroundings) (up : Motion) (holds : Cursor → Place → Prop)
    (sets : List (List Pointer)) : Prop where
  natural : ∀ w, base.Extends w.base → MotionAlike w up up
  settled : ∀ {c p}, holds c p → ∀ w, base.Extends w.base →
    c.frame.stage.Alike w c.frame.stage ∧ FramesAlike w c.earlier c.earlier
  nodes : ∀ {j p}, p ∈ nthSet sets j → ∀ w, base.Extends w.base → p.Alike w p
  order : ∀ {c p c' p'}, holds c p → holds c' p' → c.order = c'.order ∧ c.sortsNext = c'.sortsNext
  /-- Of the last frame, only the stage matters. -/
  stage : ∀ {f g fs p}, holds ⟨f, fs⟩ p → g.stage = f.stage → holds ⟨g, fs⟩ p
  rewound : ∀ {c p}, holds c p → holds c.rewound p.rewound
  findSet : ∀ {c p}, holds c p → c.frame.Faces sets p → p ≠ .after →
    Cursor.Stage.rewound c.frame.stage = c.frame.stage →
    (up.findSet c.frame).Ensures base c fun found c' =>
      c'.frame = c.frame ∧ holds c' (p.nextSet sets) ∧ found = (p.nextSet sets).isWithin
  produce : ∀ {c j i}, holds c (.within j i) → c.frame.position = i →
    (up.produce s).Ensures base c fun p? c' =>
      (∃ stage, c'.frame = { c.frame with stage }) ∧ p? = (nthSet sets j)[i]? ∧
        holds c' (.within j (if p?.isSome then i + 1 else i))
  /-- A stage that knows its nodes may be put at any position. -/
  known : ∀ {c j i k found}, holds c (.within j i) → Motion.knownAt? (k + 1) c.frame.stage = some found →
    found = (nthSet sets j)[k]? ∧ holds c (.within j (k + 1))
  /-- A single node is the only one of the only set. -/
  single : ∀ {c p origin}, holds c p → c.frame.stage = .start origin none → sets = [[origin]]

end

variable {base : Store} {s : Surroundings} {up : Motion} {holds : Cursor → Place → Prop}
  {sets : List (List Pointer)}

/-- **The next node of a set** is gone to if there is one; else the cursor stays where it is. -/
theorem Traverses.nextNode_within {stands : Cursor → Place → Prop} (h : Traverses base up stands sets) {c : Cursor}
    {j i : Nat} (hc : stands c (.within j i)) :
    up.nextNode.Ensures base c fun found c' =>
      (found = true ∧ i < (nthSet sets j).length ∧ stands c' (.within j (i + 1))) ∨
        (found = false ∧ (nthSet sets j).length ≤ i ∧ stands c' (.within j i)) :=
  (h.nextNode hc).mono fun _ _ hc' => Place.nextNode_cases hc'

/-- **StandsBy** says that a cursor is at a place by its last frame and by what `holds`. -/
structure StandsBy (holds : Cursor → Place → Prop) (sets : List (List Pointer)) (c : Cursor) (p : Place) :
    Prop where
  holds : holds c p
  faces : c.frame.Faces sets p
  unsorted : c.frame.sorted = none

/-! ## §C  Sets -/

theorem Cursor.rewound_frame (c : Cursor) : c.rewound.frame = Cursor.Frame.rewound c.frame := by
  unfold Cursor.rewound Cursor.rewoundFrames
  cases c.frame.stage <;> rfl

/-- A stage before its first node stays as it is when it is rewound. -/
theorem Cursor.rewound_rewound (stage : Stage) :
    Cursor.Stage.rewound (Cursor.Stage.rewound stage) = Cursor.Stage.rewound stage := by
  cases stage <;> rfl

theorem Frame.Faces.rewound {f : Frame} {p : Place} (h : f.Faces sets p) :
    (Cursor.Frame.rewound f).Faces sets p.rewound := by
  cases p with
  | before => exact ⟨h.1, rfl, rfl⟩
  | within j i => exact ⟨h.1, rfl, h.2.2.1, rfl⟩
  | after => exact ⟨h.1, rfl, rfl⟩

theorem Frame.Faces.isWithin {f : Frame} {p : Place} (h : f.Faces sets p) :
    p.isWithin = (f.progress == .inSet) := by
  cases p <;> simp [Place.isWithin, h.1]

/-- The frame before the first node of a set that was looked for. -/
theorem Frame.Faces.enter {f : Frame} {p : Place} (h : f.Faces sets p.rewound) :
    ({ f with progress := if (p.nextSet sets).isWithin then .inSet else .exhausted } : Frame).Faces sets
      (p.nextSet sets) := by
  have hplace : f.position = 0 ∧ f.current = none := by
    cases p with
    | before => exact h.2
    | within j i => exact ⟨h.2.1, by simpa using h.2.2.2⟩
    | after => exact h.2
  have hstart : ∀ k, (if k < sets.length then Place.within k 0 else .after) = p.nextSet sets →
      ({ f with progress := if (p.nextSet sets).isWithin then .inSet else .exhausted } : Frame).Faces sets
        (p.nextSet sets) := by
    intro k hk
    rw [← hk]
    split
    · exact ⟨rfl, hplace.1, ‹_›, hplace.2⟩
    · exact ⟨rfl, hplace⟩
  cases p with
  | before => exact hstart 0 rfl
  | within j i => exact hstart (j + 1) rfl
  | after => exact ⟨rfl, hplace⟩

namespace Supplies

variable {c : Cursor} {p : Place}

theorem stands_rewound (h : Supplies base s up holds sets) (hc : StandsBy holds sets c p) :
    StandsBy holds sets c.rewound p.rewound where
  holds := h.rewound hc.holds
  faces := by rw [Cursor.rewound_frame]; exact hc.faces.rewound
  unsorted := by rw [Cursor.rewound_frame]; exact hc.unsorted

theorem advanceSet (h : Supplies base s up holds sets) (hc : StandsBy holds sets c p) :
    up.advanceSet.Ensures base c fun found c' =>
      StandsBy holds sets c' (p.nextSet sets) ∧ found = (p.nextSet sets).isWithin := by
  have hr := h.stands_rewound hc
  have hnext : p.rewound.nextSet sets = p.nextSet sets := by cases p <;> rfl
  refine (Walk.Ensures.move (Q := fun _ c' => c' = c.rewound) rfl).bind fun _ c' hc' => ?_
  subst hc'
  refine .frame_bind (.ite (fun hex => ?_) fun hne => ?_)
  · cases p with
    | after => exact .pure ⟨hr, rfl⟩
    | before => exact absurd hex (by simp [hr.faces.1])
    | within j i => exact absurd hex (by simp [hr.faces.1])
  · have hafter : p.rewound ≠ .after := fun hp => hne (by have hf := hr.faces; rw [hp] at hf; simp [hf.1])
    have hfind := h.findSet hr.holds hr.faces hafter
      (by rw [Cursor.rewound_frame]; exact Cursor.rewound_rewound _)
    refine hfind.bind fun found c' hc' => ?_
    obtain ⟨hframe, hholds, rfl⟩ := hc'
    rw [hnext] at hholds
    rw [hnext]
    refine (Walk.Ensures.modifyFrame (Q := fun _ c' => StandsBy holds sets c' (p.nextSet sets)) ?_).bind
      fun _ _ h => .pure ⟨h, rfl⟩
    exact ⟨h.stage hholds rfl, by rw [hframe]; exact hr.faces.enter, by rw [hframe]; exact hr.unsorted⟩

/-! ## §D  Nodes -/

theorem isInSet (h : Supplies base s up holds sets) (hc : StandsBy holds sets c p) :
    up.isInSet.Ensures base c fun inside c' =>
      StandsBy holds sets c' (p.entered sets) ∧ inside = (p.entered sets).isWithin := by
  refine .frame_bind ?_
  have hf := hc.faces
  cases p with
  | before =>
    rw [hf.1]
    exact h.advanceSet hc
  | within j i =>
    rw [hf.1]
    exact .pure ⟨hc, rfl⟩
  | after =>
    rw [hf.1]
    exact .pure ⟨hc, rfl⟩

theorem advanceNode (h : Supplies base s up holds sets) (hc : StandsBy holds sets c p) :
    (up.advanceNode s).Ensures base c fun found c' =>
      StandsBy holds sets c' (p.nextNode sets) ∧ found = (p.entered sets).hasNext sets := by
  refine (h.isInSet hc).bind fun inside c' hc' => ?_
  obtain ⟨hc', rfl⟩ := hc'
  unfold Place.nextNode
  -- What comes next depends on the place only after a set has been entered.
  generalize p.entered sets = q at hc' ⊢
  cases q with
  | before => exact .pure ⟨hc', rfl⟩
  | after => exact .pure ⟨hc', rfl⟩
  | within j i =>
    obtain ⟨hprogress, hposition, hj, -⟩ := hc'.faces
    refine (h.produce hc'.holds hposition).bind fun p? c'' hc'' => ?_
    obtain ⟨⟨stage, hframe⟩, rfl, hholds⟩ := hc''
    simp only [Place.hasNext, Place.forward]
    cases hp : (nthSet sets j)[i]? with
    | none =>
      have hlen : ¬i < (nthSet sets j).length := by simpa using hp
      rw [hp] at hholds
      simp only [hlen, decide_false, Bool.false_eq_true, if_false]
      refine .pure ⟨⟨hholds, ?_, ?_⟩, rfl⟩
      · rw [hframe]; exact hc'.faces
      · rw [hframe]; exact hc'.unsorted
    | some q =>
      obtain ⟨hlen, -⟩ := List.getElem?_eq_some_iff.mp hp
      rw [hp] at hholds
      simp only [hlen, decide_true, if_true]
      refine (Walk.Ensures.modifyFrame
        (Q := fun _ c' => StandsBy holds sets c' (.within j (i + 1))) ?_).bind fun _ _ h => .pure ⟨h, rfl⟩
      refine ⟨h.stage hholds rfl, ?_, ?_⟩
      · rw [hframe]; exact ⟨hprogress, by rw [hposition], hj, by simp [hp]⟩
      · rw [hframe]; exact hc'.unsorted

/-! ## §E  Positions -/

theorem advanceTo (h : Supplies base s up holds sets) {j i k : Nat} (hc : StandsBy holds sets c (.within j i))
    (hik : i < k) :
    (up.advanceTo s k).Ensures base c fun found c' =>
      ∃ k', StandsBy holds sets c' (.within j k') ∧ found = decide (k ≤ (nthSet sets j).length) ∧
        (found = true → k' = k) := by
  refine .repeatUntil (I := fun c => ∃ i, StandsBy holds sets c (.within j i) ∧ i ≤ k ∧
    (i = k → k ≤ (nthSet sets j).length)) ?_ ⟨i, hc, hik.le, fun he => absurd he hik.ne⟩
  rintro c ⟨i, hc, hik, hend⟩
  obtain ⟨-, hposition, -⟩ := hc.faces
  refine .frame_bind (.ite (fun hlt => ?_) fun hge => ?_)
  · rw [hposition] at hlt
    refine (h.advanceNode hc).bind fun found c' hc' => ?_
    obtain ⟨rfl, hlen, hc'⟩ | ⟨rfl, hlen, hc'⟩ := Place.nextNode_cases hc'
    · exact .pure ⟨i + 1, hc', hlt, fun he => he ▸ hlen⟩
    · exact .pure ⟨i, hc', by simp; omega, by simp⟩
  · rw [hposition] at hge
    have hik : i = k := by omega
    exact .pure ⟨k, hik ▸ hc, by simpa using hend hik, fun _ => rfl⟩

theorem moveTo (h : Supplies base s up holds sets) {j i : Nat} (hc : StandsBy holds sets c (.within j i)) (k : Nat) :
    (up.moveTo s k).Ensures base c fun found c' =>
      ∃ k', StandsBy holds sets c' (.within j k') ∧ found = decide (k ≤ (nthSet sets j).length) ∧
        (found = true → k' = k) := by
  obtain ⟨hprogress, hposition, hj, hcurrent⟩ := hc.faces
  refine .frame_bind (.ite (fun hk => ?_) fun hk => ?_)
  · obtain rfl : k = 0 := by simpa using hk
    refine (Walk.Ensures.move (Q := fun _ c' => c' = c.rewound) rfl).bind fun _ c' hc' => ?_
    subst hc'
    exact .pure ⟨0, h.stands_rewound hc, by simp, fun _ => rfl⟩
  · -- Known nodes are moved to at once; otherwise the way there leads forward, from the start of the set if need be.
    obtain ⟨k, rfl⟩ : ∃ k', k = k' + 1 := ⟨k - 1, by have := (beq_iff_eq (a := k)).not.mp hk; omega⟩
    have hsome : (nthSet sets j)[k]?.isSome = decide (k + 1 ≤ (nthSet sets j).length) := by
      rw [Bool.eq_iff_iff, decide_eq_true_iff, Option.isSome_iff_ne_none, ne_eq, List.getElem?_eq_none_iff]
      omega
    cases hknown : Motion.knownAt? (k + 1) c.frame.stage with
    | some found =>
      obtain ⟨rfl, hholds⟩ := h.known hc.holds hknown
      refine (Walk.Ensures.modifyFrame
        (Q := fun _ c' => StandsBy holds sets c' (.within j (k + 1))) ?_).bind fun _ _ h =>
          .pure ⟨k + 1, h, hsome, fun _ => rfl⟩
      exact ⟨h.stage hholds rfl, ⟨by simp [hprogress], rfl, hj, by simp⟩, hc.unsorted⟩
    | none =>
      refine .ite (fun he => ?_) fun hne => ?_
      · have he : k + 1 = i := by rw [← hposition]; simpa using he
        subst he
        refine .pure ⟨k + 1, hc, ?_, fun _ => rfl⟩
        rw [hcurrent, if_neg (Nat.succ_ne_zero k)]
        exact hsome
      · refine .ite (fun hlt => ?_) fun hge => ?_
        · refine (Walk.Ensures.move (Q := fun _ c' => c' = c.rewound) rfl).bind fun _ c' hc' => ?_
          subst hc'
          exact h.advanceTo (h.stands_rewound hc) (Nat.succ_pos k)
        · refine h.advanceTo hc ?_
          have hne : k + 1 ≠ i := by rw [← hposition]; simpa using hne
          rw [hposition] at hge
          omega

theorem nodeHere (h : Supplies base s up holds sets) {j i : Nat} (hc : StandsBy holds sets c (.within j (i + 1)))
    {p : Pointer} (hp : (nthSet sets j)[i]? = some p) :
    (up.nodeHere s).Ensures base c fun p? c' => StandsBy holds sets c' (.within j (i + 1)) ∧ p? = some p := by
  obtain ⟨-, hposition, hj, hcurrent⟩ := hc.faces
  have hmoved : (do
      if c.frame.position == 0 then
        if !(← up.moveTo s 1) then return none
      Pure.pure (← Walk.frame).current : Walk (Option Pointer)).Ensures base c fun p? c' =>
        StandsBy holds sets c' (.within j (i + 1)) ∧ p? = some p := by
    refine .ite (fun hz => ?_) fun _ => ?_
    · exact absurd hz (by simp [hposition])
    · exact .frame_bind (.pure ⟨hc, by rw [hcurrent, if_neg (Nat.succ_ne_zero i)]; exact hp⟩)
  refine .frame_bind ?_
  cases hstage : c.frame.stage with
  | start origin members =>
    cases members with
    | some members => exact hmoved
    | none =>
      have hsets := h.single hc.holds hstage
      subst hsets
      obtain rfl : j = 0 := by simpa using hj
      have hp : [origin][i]? = some p := hp
      obtain ⟨hi, rfl⟩ := List.getElem?_eq_some_iff.mp hp
      obtain rfl : i = 0 := by simpa using hi
      exact .pure ⟨hc, rfl⟩
  | known nodes order => exact hmoved
  | axis a t pending => exact hmoved
  | condition e positional done => exact hmoved

/-! ## §F  Stages that supply -/

theorem stands_settled (h : Supplies base s up holds sets) (hc : StandsBy holds sets c p) (w : World)
    (hw : base.Extends w.base) : c.Alike w c := by
  obtain ⟨hstage, hearlier⟩ := h.settled hc.holds w hw
  refine ⟨⟨hstage, rfl, ?_, rfl, by rw [hc.unsorted]; exact .none⟩, hearlier⟩
  have hf := hc.faces
  cases p with
  | before => rw [hf.2.2]; exact .none
  | after => rw [hf.2.2]; exact .none
  | within j i =>
    rw [hf.2.2.2]
    split
    · exact .none
    · cases hp : (nthSet sets j)[i - 1]? with
      | none => exact .none
      | some q => exact .some (h.nodes (List.mem_of_getElem? hp) w hw)

/-- **A stage that supplies sets makes a motion that traverses them.** -/
theorem traverses (h : Supplies base s up holds sets)
    (hs : ∀ w, base.Extends w.base → SurroundingsAlike w s s) :
    Traverses base (up.next s) (StandsBy holds sets) sets where
  natural w hw := (h.natural w hw).next (hs w hw)
  settled hc := h.stands_settled hc
  faces hc := hc.faces
  unsorted hc := hc.unsorted
  order hc hc' := h.order hc.holds hc'.holds
  rewound := h.stands_rewound
  nextSet := h.advanceSet
  nextNode := h.advanceNode
  setPosition := h.moveTo
  current hc _ hp := h.nodeHere hc hp

end Supplies

end NodePath
