/-
# NodePath.Proofs.Retracing — going back over a set

A cursor that is put back before the first node of its set, or before everything, is the cursor that was there
before, down to the frames of its earlier stages: no step within a set leaves a trace that going back would keep.
And a cursor that has found no further node stays as it is, however often it is asked again. **Retraces** says this
of a motion; as with `Traverses`, it is a matter of the last stage alone, which **Replays** says.

* §A  Cursors that are put back.
* §B  `Motion.Rests` and `Retraces`.
* §C  `Replays`: what it takes of the last stage.
* §D  Predicates.
* §E  Known nodes.
* §F  Axes.
* §G  Conditions.
-/
import NodePath.Proofs.Working

namespace NodePath

/-! ## §A  Putting back -/

namespace Cursor

theorem rewoundFrames_rewoundFrames (fs : List Frame) :
    rewoundFrames (rewoundFrames fs) = rewoundFrames fs := by
  -- Going back stops at the first stage that is no condition; everything behind that stage stays as it is.
  induction fs with
  | nil => rfl
  | cons f fs ih =>
    cases hstage : f.stage <;>
      simp only [rewoundFrames, Frame.rewound, Stage.rewound, hstage, ih]

/-- The frames of a cursor that is put back. -/
theorem frames_rewound (c : Cursor) :
    c.rewound.frame :: c.rewound.earlier = rewoundFrames (c.frame :: c.earlier) := by
  unfold rewound rewoundFrames
  cases c.frame.stage <;> rfl

/-- Going back twice is going back once. -/
@[simp] theorem rewound_idem (c : Cursor) : c.rewound.rewound = c.rewound := by
  have h : rewoundFrames (c.rewound.frame :: c.rewound.earlier) = c.rewound.frame :: c.rewound.earlier := by
    rw [frames_rewound, rewoundFrames_rewoundFrames]
  rw [rewound, h]

/-- What a step changes of the last frame is lost when the cursor is put back. -/
theorem rewound_moved (c : Cursor) (position : Nat) (current : Option Pointer) :
    ({ c with frame := { c.frame with position, current } } : Cursor).rewound = c.rewound := by
  unfold rewound rewoundFrames
  cases hstage : c.frame.stage <;> simp only [Frame.rewound, hstage]

/-- How far the sets have come is kept when the cursor is put back. -/
theorem rewound_progress (c : Cursor) (progress : Progress) :
    ({ c with frame := { c.frame with progress } } : Cursor).rewound =
      { c.rewound with frame := { c.rewound.frame with progress } } := by
  unfold rewound rewoundFrames
  cases hstage : c.frame.stage <;> simp only [Frame.rewound, hstage]

end Cursor

/-! ## §B  Retracing -/

/-- **Rests** says that a cursor at the end of its set finds no further node and stays as it is. -/
def Motion.Rests (base : Store) (m : Motion) (c : Cursor) : Prop :=
  ∀ st, base.Extends st → m.nextNode.runOn c st = (.ok false, c, st)

/-- **Retraces** says that the cursors that `stands` places go back over their sets without a trace, and that all
of them are `start` when they are restarted. -/
structure Retraces (base : Store) (m : Motion) (stands : Cursor → Place → Prop) (start : Cursor) : Prop where
  restarted : ∀ {c p}, stands c p → c.restarted = start
  nextSet : ∀ {c p}, stands c p → m.nextSet.Ensures base c fun _ c' => c'.rewound = c'
  nextNode : ∀ {c j i}, stands c (.within j i) → m.nextNode.Ensures base c fun found c' =>
    c'.rewound = c.rewound ∧ (found = false → m.Rests base c')
  setPosition : ∀ {c j i}, stands c (.within j i) → ∀ k,
    (m.setPosition k).Ensures base c fun _ c' => c'.rewound = c.rewound
  current : ∀ {c j i}, stands c (.within j (i + 1)) → m.current.Ensures base c fun _ c' => c' = c

section

variable {base : Store} {s : Surroundings} {up : Motion} {holds : Cursor → Place → Prop}
  {sets : List (List Pointer)} {start : Cursor}

/-! ## §C  Stages -/

/-- **Replays** says that the last stage of a cursor, by what `holds` of it, finds its sets and produces their nodes
without a trace, and that it is done with a set once and for all. -/
structure Replays (base : Store) (s : Surroundings) (up : Motion) (holds : Cursor → Place → Prop)
    (start : Cursor) : Prop where
  restarted : ∀ {c p}, holds c p → c.restarted = start
  findSet : ∀ {c p}, holds c p → c.rewound = c →
    (up.findSet c.frame).Ensures base c fun _ c' => c'.rewound = c'
  produce : ∀ {c j i}, holds c (.within j i) → (up.produce s).Ensures base c fun p? c' =>
    c'.rewound = c.rewound ∧
      (p? = none → ∀ st, base.Extends st → (up.produce s).runOn c' st = (.ok none, c', st))

/-- A stage that is done with its set rests. -/
theorem Motion.rests_next {c : Cursor} (hprogress : c.frame.progress = .inSet)
    (h : ∀ st, base.Extends st → (up.produce s).runOn c st = (.ok none, c, st)) : (up.next s).Rests base c := by
  intro st hst
  show (up.advanceNode s).runOn c st = _
  have hinside : up.isInSet.runOn c st = (.ok true, c, st) := by
    rw [Motion.isInSet, Walk.runOn_frame_bind, hprogress]
    rfl
  rw [Motion.advanceNode, Walk.runOn_bind, hinside]
  show (up.produce s >>= _).runOn c st = _
  rw [Walk.runOn_bind, h st hst]
  rfl

namespace Replays

variable {c : Cursor} {p : Place} {j i : Nat}

theorem advanceSet (h : Replays base s up holds start) (hsupplies : Supplies base s up holds sets)
    (hc : StandsBy holds sets c p) : up.advanceSet.Ensures base c fun _ c' => c'.rewound = c' := by
  have hr := hsupplies.stands_rewound hc
  refine (Walk.Ensures.move (Q := fun _ c' => c' = c.rewound) rfl).bind fun _ c' hc' => ?_
  subst hc'
  refine .frame_bind (.ite (fun _ => .pure c.rewound_idem) fun _ => ?_)
  refine (h.findSet hr.holds c.rewound_idem).bind fun found c' hc' => ?_
  refine (Walk.Ensures.modifyFrame (Q := fun _ c' => c'.rewound = c') ?_).bind fun _ _ h => .pure h
  rw [Cursor.rewound_progress, hc']

theorem advanceNode (h : Replays base s up holds start) (hsupplies : Supplies base s up holds sets)
    (hc : StandsBy holds sets c (.within j i)) :
    (up.advanceNode s).Ensures base c fun found c' =>
      c'.rewound = c.rewound ∧ (found = false → (up.next s).Rests base c') := by
  obtain ⟨hprogress, hposition, -⟩ := hc.faces
  have hinside : up.isInSet.Ensures base c fun inside c' => inside = true ∧ c' = c := by
    refine .frame_bind ?_
    rw [hprogress]
    exact .pure ⟨rfl, rfl⟩
  refine hinside.bind fun inside c' hc' => ?_
  obtain ⟨rfl, rfl⟩ := hc'
  refine ((h.produce hc.holds).and (hsupplies.produce hc.holds hposition)).bind fun p? c'' hc'' => ?_
  obtain ⟨⟨hrewound, hdone⟩, ⟨stage, hframe⟩, -, -⟩ := hc''
  cases p? with
  | none =>
    refine .pure ⟨hrewound, fun _ => Motion.rests_next ?_ (hdone rfl)⟩
    rw [hframe]
    exact hprogress
  | some q =>
    refine (Walk.Ensures.modifyFrame (Q := fun _ c₁ => c₁.rewound = c'.rewound) ?_).bind fun _ _ h =>
      .pure ⟨h, fun he => by cases he⟩
    rw [Cursor.rewound_moved, hrewound]

/-- Going on to a position goes back to the same cursor. -/
theorem advanceTo (h : Replays base s up holds start) (hsupplies : Supplies base s up holds sets)
    (hc : StandsBy holds sets c (.within j i)) (k : Nat) :
    (up.advanceTo s k).Ensures base c fun _ c' => c'.rewound = c.rewound := by
  refine .repeatUntil (I := fun c' => (∃ i, StandsBy holds sets c' (.within j i)) ∧ c'.rewound = c.rewound) ?_
    ⟨⟨i, hc⟩, rfl⟩
  rintro c' ⟨⟨i, hc'⟩, hrewound⟩
  refine .frame_bind (.ite (fun _ => ?_) fun _ => .pure hrewound)
  refine ((h.advanceNode hsupplies hc').and (hsupplies.advanceNode hc')).bind fun found c'' hc'' => ?_
  obtain ⟨⟨hrewound', -⟩, hc'', -⟩ := hc''
  obtain ⟨i', hnext⟩ := Place.nextNode_within sets j i
  rw [hnext] at hc''
  exact .ite (fun _ => .pure ⟨⟨i', hc''⟩, hrewound'.trans hrewound⟩) fun _ => .pure (hrewound'.trans hrewound)

theorem moveTo (h : Replays base s up holds start) (hsupplies : Supplies base s up holds sets)
    (hc : StandsBy holds sets c (.within j i)) (k : Nat) :
    (up.moveTo s k).Ensures base c fun _ c' => c'.rewound = c.rewound := by
  obtain ⟨hprogress, -⟩ := hc.faces
  have hback : ∀ {f : Unit → Walk Bool}, (f ()).Ensures base c.rewound (fun _ c' => c'.rewound = c.rewound) →
      (Walk.move Cursor.rewound >>= f).Ensures base c fun _ c' => c'.rewound = c.rewound := fun hf =>
    (Walk.Ensures.move (Q := fun _ c' => c' = c.rewound) rfl).bind fun _ c' hc' => hc' ▸ hf
  refine .frame_bind (.ite (fun _ => hback (.pure c.rewound_idem)) fun _ => ?_)
  cases Motion.knownAt? k c.frame.stage with
  | some found =>
    refine (Walk.Ensures.modifyFrame (Q := fun _ c' => c'.rewound = c.rewound) ?_).bind fun _ _ h => .pure h
    -- The cursor is in a set already, so that only the position and the node change.
    rw [if_neg (by rw [hprogress]; decide)]
    exact c.rewound_moved k found
  | none =>
    refine .ite (fun _ => .pure rfl) fun _ => .ite (fun _ => hback ?_) fun _ => h.advanceTo hsupplies hc k
    refine (h.advanceTo hsupplies (hsupplies.stands_rewound hc) k).mono fun _ c' hc' => ?_
    rw [hc', Cursor.rewound_idem]

/-- At a node, asking for it does nothing. -/
theorem nodeHere (hc : StandsBy holds sets c (.within j (i + 1))) :
    (up.nodeHere s).Ensures base c fun _ c' => c' = c := by
  obtain ⟨-, hposition, -⟩ := hc.faces
  have hmoved : (do
      if c.frame.position == 0 then
        if !(← up.moveTo s 1) then return none
      Pure.pure (← Walk.frame).current : Walk (Option Pointer)).Ensures base c fun _ c' => c' = c :=
    .ite (fun hz => absurd hz (by simp [hposition])) fun _ => .frame_bind (.pure rfl)
  refine .frame_bind ?_
  cases c.frame.stage with
  | start origin members =>
    cases members with
    | some members => exact hmoved
    | none => exact .pure rfl
  | known nodes order => exact hmoved
  | axis a t pending => exact hmoved
  | condition e positional done => exact hmoved

/-- **A stage that replays makes a motion that retraces.** -/
theorem retraces (h : Replays base s up holds start) (hsupplies : Supplies base s up holds sets) :
    Retraces base (up.next s) (StandsBy holds sets) start where
  restarted hc := h.restarted hc.holds
  nextSet := h.advanceSet hsupplies
  nextNode := h.advanceNode hsupplies
  setPosition := h.moveTo hsupplies
  current := nodeHere

end Replays

end

/-! ## §D  Predicates -/

section

variable {base : Store} {s : Surroundings} {m : Motion} {stands : Cursor → Place → Prop}
  {sets : List (List Pointer)} {start c : Cursor} {j i : Nat}

/-- A link together with what is kept of the first cursor. -/
def Link.keeping (L : Link) (I : Cursor → Prop) : Link where
  rel w c d := L.rel w c d ∧ I c
  grow hw h := ⟨L.grow hw h.1, h.2⟩

/-- What keeps something when it answers keeps the cursors linked. -/
theorem WalkAlike.keeping {α β : Type} {w : World} {L : Link} {R : Relation α β} {m : Walk α} {n : Walk β}
    {I : Cursor → Prop} (h : WalkAlike w L True R m n)
    (hkeep : ∀ v c d, w.Grows v → L.rel v c d → I c → m.Ensures w.base c fun _ c' => I c') :
    WalkAlike w (L.keeping I) True R m n := by
  rintro v hv c d st st' ⟨hL, hI⟩ hst
  have hbase : w.base.Extends st := hv.base ▸ hst.left
  have hrun := hkeep v c d hv hL hI st hbase
  rcases h v hv c d st st' hL hst with hl | ⟨v', hv', hL', hst', hr⟩
  · exact .inl hl
  · generalize m.runOn c st = run at hrun hL' hst' hr ⊢
    obtain ⟨r, c', st₁⟩ := run
    cases r with
    | error e => exact .inl ⟨trivial, e, rfl⟩
    | ok a => exact .inr ⟨v', hv', ⟨hL', (hrun _ _ _ rfl).2⟩, hst', hr⟩

/-- **Listing the set** leaves a cursor that goes back to the same place. -/
theorem Retraces.listSet (hr : Retraces base m stands start) (h : Traverses base m stands sets)
    (hc : stands c (.within j (i + 1))) : m.listSet.Ensures base c fun _ c' => c'.rewound = c.rewound := by
  refine .frame_bind (.ite (fun _ => ?_) fun hz => ?_)
  · refine (Walk.Ensures.move (Q := fun _ c' => c' = c.rewound) rfl).bind fun _ c' hc' => ?_
    subst hc'
    have htake : ∀ l c', ((∃ i, stands c' (.within j i) ∧ l = (nthSet sets j).drop i) ∧ c'.rewound = c.rewound) →
        m.take.Ensures base c' fun p? c'' => p? = l.head? ∧
          (∃ i, stands c'' (.within j i) ∧ l.tail = (nthSet sets j).drop i) ∧ c''.rewound = c.rewound := by
      rintro l c' ⟨⟨i, hc', rfl⟩, hrewound⟩
      have hkept : m.take.Ensures base c' fun _ c'' => c''.rewound = c'.rewound :=
        (hr.nextNode hc').bind fun _ _ hc'' => .ite (fun _ => .frame_bind (.pure hc''.1)) fun _ => .pure hc''.1
      refine ((h.take hc').and hkept).mono fun p? c'' hc'' => ?_
      obtain ⟨⟨hp, i', hc'', htail⟩, hrewound'⟩ := hc''
      exact ⟨hp, ⟨i', hc'', htail⟩, hrewound'.trans hrewound⟩
    refine (Walk.Ensures.collectAll htake ⟨⟨0, h.rewound hc, rfl⟩, c.rewound_idem⟩).bind fun nodes c' hc' => ?_
    obtain ⟨-, ⟨⟨i', hc', -⟩, hrewound⟩, -⟩ := hc'
    exact (hr.setPosition hc' _).bind fun _ c'' hc'' => .pure (hc''.trans hrewound)
  · exact absurd (by simp [(h.faces hc).2.1]) hz

/-- **A predicate** leaves a cursor that goes back to the same place. -/
theorem Retraces.test (hr : Retraces base m stands start) (h : Traverses base m stands sets) (hs : Grounded base s)
    (e : Expr) (hc : stands c (.within j (i + 1))) (hi : i < (nthSet sets j).length)
    (hp : (nthSet sets j)[i].Within base.documents.size) :
    (s.test m e).Ensures base c fun _ c' => stands c' (.within j (i + 1)) ∧ c'.rewound = c.rewound := by
  intro st hst d c' st₁ hrun
  obtain ⟨hext, hc', -⟩ := h.test hs e hc hi hp hst hrun
  refine ⟨hext, hc', ?_⟩
  have hbase : base.Extends base := .refl hs.sound
  -- The questions that a predicate asks are answered as by the list of the set, and each leaves a cursor that goes back
  -- to the same place. So does the whole predicate.
  have hlisted := h.queries (s := s) hs.closed hi hp
  have hqueries : Queries (.only base hs.closed) ((Link.listed stands sets j i).keeping (·.rewound = c.rewound)) True
      m (listMotion s) := {
    current := hlisted.current.keeping fun v c₁ d _ hL hI => (hr.current hL.1).mono fun _ c₂ hc₂ => hc₂ ▸ hI
    listSet := hlisted.listSet.keeping fun v c₁ d _ hL hI => (hr.listSet h hL.1).mono fun _ c₂ hc₂ => hc₂.trans hI
    position := fun v c₁ d hv hL => hlisted.position v c₁ d hv hL.1 }
  have hlist := (hs.natural (.only base hs.closed) hbase).test _ _ True m (listMotion s) e (.refl _) fun _ => hqueries
  have hres := hlist _ (.refl _) c (.at (nthSet sets j) (i + 1)) st base ⟨⟨hc, rfl⟩, rfl⟩ (World.holds_only hst hbase)
  rw [hrun] at hres
  rcases hres with ⟨-, e, he⟩ | ⟨v, -, hL, -, -⟩
  · cases he
  · exact hL.2

end

/-! ## §E  Known nodes -/

section

variable {base : Store} {has : Pointer → Prop} {s : Surroundings} {up : Motion} {stands : Cursor → Place → Prop}
  {sets : List (List Pointer)} {start : Cursor}

/-- What a stage that knows its nodes produces. -/
theorem Stage.runOn_produce {c : Cursor} {nodes : List Pointer} (h : c.frame.stage.knows = some nodes) (st : Store) :
    (up.produce s).runOn c st = (.ok nodes[c.frame.position]?, c, st) := by
  rw [Motion.produce, Walk.runOn_frame_bind]
  cases hs : c.frame.stage with
  | start origin members =>
    rw [hs] at h
    cases members with
    | none => cases h; cases c.frame.position <;> rfl
    | some members => cases h; rfl
  | known nodes order => rw [hs] at h; cases h; rfl
  | axis a t pending => rw [hs] at h; cases h
  | condition e positional done => rw [hs] at h; cases h

theorem replays_known {stage : Stage} {nodes : List Pointer} (hstage : stage.knows = some nodes) :
    Replays base s up (KnowsAt stage) ⟨.fresh stage, []⟩ where
  restarted := by
    rintro ⟨f, fs⟩ p ⟨rfl, rfl, -⟩
    simp only [Cursor.restarted, Cursor.Frame.restarted, Stage.knows_rewound hstage, List.map_nil]
  findSet := by
    rintro ⟨f, fs⟩ p ⟨rfl, rfl, -⟩ hrewound
    rw [Stage.knows_findSet hstage]
    exact .pure hrewound
  produce := by
    rintro ⟨f, fs⟩ j i ⟨rfl, rfl, -⟩ st hst p? c' st' hrun
    rw [Stage.runOn_produce hstage] at hrun
    cases hrun
    refine ⟨.refl hst.sound, rfl, fun hnone st₁ _ => ?_⟩
    rw [Stage.runOn_produce hstage]
    exact congrArg (fun p? => (Except.ok p?, _, st₁)) hnone

/-! ## §F  Axes -/

/-- Going on to the next origin leads to some place. -/
theorem Traverses.moves_nextOrigin (h : Traverses base up stands sets) {c : Cursor} {p : Place} (hc : stands c p)
    (started : Bool) : (up.nextOrigin started).Ensures base c fun _ _ => True := by
  have henter : ∀ {c p}, stands c p → up.enter.Ensures base c fun _ _ => True := fun hc =>
    (h.enter hc).mono fun _ _ _ => trivial
  cases started with
  | false => exact henter hc
  | true => exact (h.nextNode hc).bind fun _ _ hc' => .ite (fun _ => .pure trivial) fun _ => henter hc'.1

/-- A cursor with one more stage, when it is restarted. -/
theorem Cursor.restarted_push {f : Frame} {c : Cursor} {stage : Stage} (hc : c.restarted = start)
    (hstage : Cursor.Stage.rewound f.stage = stage) :
    (⟨f, c.frame :: c.earlier⟩ : Cursor).restarted = start.push stage := by
  subst hc hstage
  rfl

variable {a : Axis} {t : NodeTest}

theorem Retraces.pendingNodes (hr : Retraces base up stands start) (h : Traverses base up stands sets)
    (hrealm : Realm base has) {f : Frame} {c : Cursor} {k l : Nat} {x : Pointer} (hc : stands c (.within k (l + 1)))
    (hx : (nthSet sets k)[l]? = some x) (hhas : has x) (a : Axis) (pending : Option (List Pointer)) :
    (up.pendingNodes a pending).Ensures base ⟨f, c.frame :: c.earlier⟩ fun nodes? c' =>
      nodes?.isSome ∧ c' = ⟨f, c.frame :: c.earlier⟩ := by
  cases pending with
  | some nodes => exact .pure ⟨rfl, rfl⟩
  | none =>
    refine (Walk.Ensures.inEarlier (Q := fun p? c' => p? = some x ∧ c' = ⟨f, c.frame :: c.earlier⟩)
      (((h.current hc x hx).and (hr.current hc)).mono fun p? c₁ hc₁ => ⟨hc₁.1.2, hc₁.2 ▸ rfl⟩)).bind
        fun p? c' hc' => ?_
    obtain ⟨rfl, rfl⟩ := hc'
    intro st hst nodes? c' st' hrun
    dsimp only at hrun
    rw [Walk.runOn_bind, Walk.runOn_lift, hrealm.opened hhas] at hrun
    cases hrun
    exact ⟨.refl hst.sound, rfl, rfl⟩

/-- **The next node along an axis** changes what is pending, and nothing else. -/
theorem Retraces.nextAlong (hr : Retraces base up stands start) (h : Traverses base up stands sets)
    (hrealm : Realm base has) {f : Frame} {c : Cursor} {k l : Nat} {x : Pointer} (hc : stands c (.within k (l + 1)))
    (hx : (nthSet sets k)[l]? = some x) (hhas : has x) (pending : Option (List Pointer)) :
    (up.nextAlong s a t pending).Ensures base ⟨f, c.frame :: c.earlier⟩ fun p? c' => ∃ nodes,
      c' = ⟨{ f with stage := .axis a t (some nodes) }, c.frame :: c.earlier⟩ ∧ (p? = none → nodes = []) := by
  refine (hr.pendingNodes h hrealm hc hx hhas a pending).bind fun nodes? c' hc' => ?_
  obtain ⟨hsome, rfl⟩ := hc'
  cases nodes? with
  | none => cases hsome
  | some nodes =>
    refine .store_bind fun st _ => ?_
    generalize hrest : (nodes.dropWhile fun p => !t.accepts (s.resolve st) p st) = rest
    refine (Walk.Ensures.modifyFrame (Q := fun _ c' =>
      c' = ⟨{ f with stage := .axis a t (some (rest.drop 1)) }, c.frame :: c.earlier⟩) (by rw [← hrest])).bind
        fun _ c' hc' => .pure ⟨rest.drop 1, hc', fun hnone => ?_⟩
    rw [List.head?_eq_none_iff.mp hnone, List.drop_nil]

theorem Retraces.replays_along (hr : Retraces base up stands start) (h : Traverses base up stands sets)
    (hrealm : Realm base has) (hcover : Realm.Covers has sets) :
    Replays base s up (AlongAt base has s stands sets (s.along base a t) a t) (start.push (.axis a t none)) where
  restarted := by
    rintro _ _ hc
    obtain ⟨f, c, q, pending, rfl, hstage, hup, -⟩ := hc.stages
    exact Cursor.restarted_push (hr.restarted hup) (by rw [hstage]; rfl)
  findSet := by
    rintro _ _ hc hrewound
    have hframe := congrArg Cursor.frame hrewound
    rw [Cursor.rewound_frame] at hframe
    obtain ⟨f, c, q, pending, rfl, hstage, hup, -⟩ := hc.stages
    have hf : Cursor.Frame.rewound f = f := hframe
    simp only [Motion.findSet, hstage]
    -- The stages before move, but an axis does not take them along when it goes back.
    refine .inEarlier ((h.moves_nextOrigin hup _).mono fun _ c' _ => ?_)
    rw [Cursor.rewound_axis hstage, hf]
  produce := by
    rintro _ j i hc
    cases hc with
    | @within f c _ _ k l x pending hstage hup hx hrest hpending =>
      have hhas := hcover.nodes (List.mem_of_getElem? hx)
      refine .frame_bind ?_
      simp only [hstage]
      refine (hr.nextAlong h hrealm hup hx hhas pending).mono fun p? c' hc' => ?_
      obtain ⟨nodes, rfl, hnone⟩ := hc'
      refine ⟨?_, fun hp st _ => ?_⟩
      · rw [Cursor.rewound_axis hstage, Cursor.rewound_axis rfl]
        simp only [Cursor.Frame.rewound, Cursor.Stage.rewound, hstage]
      · obtain rfl := hnone hp
        rfl

/-! ## §G  Conditions -/

variable {e : Expr} {c : Cursor} {j k : Nat}

/-- **Sought** says what a search leaves of the stages before: they are in the same set and go back to the same
place, and they rest when the search has found nothing. -/
def Sought (base : Store) (up : Motion) (stands : Cursor → Place → Prop) (j : Nat) (r : Cursor)
    (found? : Option Motion.Match) (c : Cursor) : Prop :=
  (∃ k, stands c (.within j k)) ∧ c.rewound = r ∧ (found? = some .missing → up.Rests base c)

/-- What is concluded at a node leaves the stages before where they are. -/
theorem Retraces.conclude (hr : Retraces base up stands start) (hc : stands c (.within j (k + 1))) (d : Datum)
    (positional : Bool) : (up.conclude d positional).Ensures base c (Sought base up stands j c.rewound) := by
  have hsettle : ∀ selected : Bool, (up.settle selected).Ensures base c (Sought base up stands j c.rewound) := by
    intro selected
    cases selected with
    | true =>
      refine (hr.current hc).bind fun p? c₁ hc₁ => .pure ?_
      subst hc₁
      exact ⟨⟨_, hc⟩, rfl, nofun⟩
    | false => exact .pure ⟨⟨_, hc⟩, rfl, nofun⟩
  rcases up.conclude_cases d positional with ⟨x, -, -, heq⟩ | ⟨-, heq⟩
  · rw [heq]
    exact .pure ⟨⟨_, hc⟩, rfl, nofun⟩
  · rw [heq]
    intro st hst found? c' st' hrun
    obtain ⟨selected, hverdict⟩ := Motion.runOn_verdict d c st
    rw [Walk.runOn_bind, hverdict] at hrun
    exact hsettle selected st hst found? c' st' hrun

theorem Retraces.tryNext (hr : Retraces base up stands start) (h : Traverses base up stands sets) (hs : Grounded base s)
    (hrealm : Realm base has) (hcover : Realm.Covers has sets) (hc : stands c (.within j k)) (positional : Bool) :
    (up.tryNext s e positional).Ensures base c (Sought base up stands j c.rewound) := by
  rw [Motion.tryNext_eq]
  refine ((h.nextNode_within hc).and (hr.nextNode hc)).bind fun found c₁ hc₁ => ?_
  obtain ⟨hc₁, hback, hrests⟩ := hc₁
  obtain ⟨rfl, hk, hc₁⟩ | ⟨rfl, hk, hc₁⟩ := hc₁
  · refine (hr.test h hs e hc₁ hk (hrealm.within (hcover.nodes (List.getElem_mem hk)))).bind fun d c₂ hc₂ => ?_
    obtain ⟨hc₂, hback₂⟩ := hc₂
    have hconclude := hr.conclude hc₂ d positional
    rwa [hback₂, hback] at hconclude
  · exact .pure ⟨⟨_, hc₁⟩, hback, fun _ => hrests rfl⟩

/-- **Searching** goes back to the same place. -/
theorem Retraces.search (hr : Retraces base up stands start) (h : Traverses base up stands sets) (hs : Grounded base s)
    (hrealm : Realm base has) (hcover : Realm.Covers has sets) (hc : stands c (.within j k)) (positional : Bool) :
    (Walk.repeatUntil (up.tryNext s e positional)).Ensures base c fun found =>
      Sought base up stands j c.rewound (some found) := by
  refine .repeatUntil (I := fun c' => (∃ k, stands c' (.within j k)) ∧ c'.rewound = c.rewound) ?_ ⟨⟨k, hc⟩, rfl⟩
  rintro c' ⟨⟨k, hc'⟩, hback⟩
  refine (hr.tryNext h hs hrealm hcover hc' positional).mono fun found? c'' hc'' => ?_
  rw [hback] at hc''
  cases found? with
  | none => exact ⟨hc''.1, hc''.2.1⟩
  | some found => exact hc''

/-- A position that is gone to. -/
theorem Retraces.nodeAt (hr : Retraces base up stands start) (h : Traverses base up stands sets)
    (hc : stands c (.within j k)) (x : Float) : (up.nodeAt x).Ensures base c fun _ c' => c'.rewound = c.rewound := by
  refine .ite (fun hx => ?_) fun _ => .pure rfl
  rw [Bool.and_eq_true, decide_eq_true_iff] at hx
  obtain ⟨i, hi⟩ : ∃ i, Number.toIndex x = i + 1 :=
    ⟨Number.toIndex x - 1, by have := Number.one_le_toIndex hx.1 hx.2; omega⟩
  rw [hi]
  refine ((h.setPosition hc _).and (hr.setPosition hc _)).bind fun found c₁ hc₁ => ?_
  obtain ⟨⟨k', hc₁, -, hk'⟩, hback⟩ := hc₁
  refine .ite (fun hfound => ?_) fun _ => .pure hback
  obtain rfl := hk' hfound
  exact (hr.current hc₁).mono fun _ c₂ hc₂ => hc₂ ▸ hback

/-- A condition that is done with its set produces nothing. -/
theorem Motion.runOn_produce_done {f : Frame} {fs : List Frame} {positional : Bool}
    (hstage : f.stage = .condition e positional true) (st : Store) :
    (up.produce s).runOn ⟨f, fs⟩ st = (.ok none, ⟨f, fs⟩, st) := by
  rw [Motion.produce, Walk.runOn_frame_bind, hstage]
  rfl

/-- A condition whose earlier stages rest produces nothing. -/
theorem Motion.Rests.runOn_produce {f : Frame} {positional : Bool} (hrests : up.Rests base c)
    (hstage : f.stage = .condition e positional false) {st : Store} (hst : base.Extends st) :
    (up.produce s).runOn ⟨f, c.frame :: c.earlier⟩ st = (.ok none, ⟨f, c.frame :: c.earlier⟩, st) := by
  have htry : (up.tryNext s e positional).runOn c st = (.ok (some .missing), c, st) := by
    rw [Motion.tryNext, Walk.runOn_bind, hrests st hst]
    rfl
  have hearlier : (Walk.inEarlier .missing (Walk.repeatUntil (up.tryNext s e positional))).runOn
      ⟨f, c.frame :: c.earlier⟩ st = (.ok .missing, ⟨f, c.frame :: c.earlier⟩, st) := by
    rw [Walk.runOn_inEarlier]
    exact congrArg (fun run => (run.1, (⟨f, run.2.1.frame :: run.2.1.earlier⟩ : Cursor), run.2.2))
      (Walk.runOn_repeatUntil_some htry)
  rw [Motion.produce, Walk.runOn_frame_bind, hstage]
  show (up.nextMatching s e positional false).runOn _ st = _
  rw [Motion.nextMatching, if_neg Bool.false_ne_true, Walk.runOn_bind, hearlier]
  rfl

theorem Retraces.nextMatching (hr : Retraces base up stands start) (h : Traverses base up stands sets)
    (hs : Grounded base s) (hrealm : Realm base has) (hcover : Realm.Covers has sets) {f : Frame}
    (hstage : f.stage = .condition e (!e.isContextDependent) false) (hc : stands c (.within j k))
    (hconst : e.isContextDependent = false → k = 0 ∨ ¬s.IsNumber base e) :
    (up.nextMatching s e (!e.isContextDependent) false).Ensures base ⟨f, c.frame :: c.earlier⟩ fun p? c' =>
      c'.rewound = (⟨f, c.frame :: c.earlier⟩ : Cursor).rewound ∧
        (p? = none → ∀ st, base.Extends st → (up.produce s).runOn c' st = (.ok none, c', st)) := by
  -- A condition takes the stages before along when it goes back, so these have to go back to the same place, too.
  have hback : ∀ {g : Frame} {c₁ : Cursor} {done : Bool}, g.stage = .condition e (!e.isContextDependent) done →
      Cursor.Frame.rewound g = Cursor.Frame.rewound f → c₁.rewound = c.rewound →
      (⟨g, c₁.frame :: c₁.earlier⟩ : Cursor).rewound = (⟨f, c.frame :: c.earlier⟩ : Cursor).rewound := by
    intro g c₁ done hg hframe hc₁
    rw [Cursor.rewound_condition hg, Cursor.rewound_condition hstage, hframe, hc₁]
  rw [Motion.nextMatching, if_neg Bool.false_ne_true]
  refine (Walk.Ensures.inEarlier (f := f) (Q := fun found c' => ∃ c₁, c' = ⟨f, c₁.frame :: c₁.earlier⟩ ∧
    Found base s stands sets e j (s.keepFrom base e (nthSet sets j) k) found c₁ ∧
      Sought base up stands j c.rewound (some found) c₁)
    (((h.search hs hrealm hcover hc rfl hconst).and (hr.search h hs hrealm hcover hc _)).mono
      fun found c₁ hc₁ => ⟨c₁, rfl, hc₁⟩)).bind fun found c' hc' => ?_
  obtain ⟨c₁, rfl, hfound, ⟨k₁, hc₁⟩, hrewound, hrests⟩ := hc'
  cases found with
  | missing =>
    exact .pure ⟨hback hstage rfl hrewound, fun _ st hst => (hrests rfl).runOn_produce hstage hst⟩
  | node p? =>
    obtain ⟨k', q, rfl, -⟩ := hfound
    exact .pure ⟨hback hstage rfl hrewound, fun hp => by cases hp⟩
  | position x =>
    refine (Walk.Ensures.modifyFrame (Q := fun _ c' =>
      c' = ⟨{ f with stage := .condition e (!e.isContextDependent) true }, c₁.frame :: c₁.earlier⟩) rfl).bind
        fun _ c' hc' => ?_
    subst hc'
    refine .inEarlier ((hr.nodeAt h hc₁ x).mono fun p? c₂ hc₂ => ⟨?_, fun _ st _ => ?_⟩)
    · refine hback rfl ?_ (hc₂.trans hrewound)
      simp only [Cursor.Frame.rewound, Cursor.Stage.rewound, hstage]
    · exact Motion.runOn_produce_done rfl st

theorem Retraces.replays_condition (hr : Retraces base up stands start) (h : Traverses base up stands sets)
    (hs : Grounded base s) (hrealm : Realm base has) (hcover : Realm.Covers has sets) (e : Expr) :
    Replays base s up (ConditionAt base s stands sets e)
      (start.push (.condition e (!e.isContextDependent) false)) where
  restarted := by
    rintro _ _ hc
    obtain ⟨f, c, q, done, rfl, hstage, hup, -⟩ := hc.stages
    exact Cursor.restarted_push (hr.restarted hup) (by rw [hstage]; rfl)
  findSet := by
    rintro _ _ hc hrewound
    have hframe := congrArg Cursor.frame hrewound
    rw [Cursor.rewound_frame] at hframe
    obtain ⟨f, c, q, done, rfl, hstage, hup, -⟩ := hc.stages
    have hf : Cursor.Frame.rewound f = f := hframe
    simp only [Motion.findSet, hstage]
    refine .inEarlier ((hr.nextSet hup).mono fun _ c' hc' => ?_)
    rw [Cursor.rewound_condition hstage, hf, hc']
  produce := by
    rintro _ j i hc
    refine .frame_bind ?_
    cases hc with
    | searching hstage hup _ hconst =>
      simp only [hstage]
      exact hr.nextMatching h hs hrealm hcover hstage hup hconst
    | done hstage hup _ =>
      simp only [hstage]
      exact .pure ⟨rfl, fun _ st _ => Motion.runOn_produce_done hstage st⟩

end

end NodePath
