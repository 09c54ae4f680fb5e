/-
# NodePath.Proofs.Working — what cannot fail

A walk fails only where something in it does: a predicate that comes to an error, or a repetition that goes on for
too long. **Works** says that a walk does not fail, and is put together from the walk's parts as `Ensures` is, which
says what it comes to. A motion whose predicates can all be judged on the lists of the sets, and which has to do with
fewer sets and nodes than a repetition has rounds, is **Unfailing**.

* §A  `Walk.Works` and its rules.
* §B  Repetition, by what is left to do.
* §C  `Unfailing`.
* §D  Sets, nodes and positions of a stage.
* §E  Known nodes and axes.
* §F  Conditions.
-/
import NodePath.Proofs.Stages

namespace NodePath

/-! ## §A  Rules -/

/-- **Works** says that a walk does not fail, in any store that extends the base. -/
def Walk.Works {α : Type} (base : Store) (m : Walk α) (c : Cursor) : Prop :=
  ∀ st, base.Extends st → ∃ a c' st', m.runOn c st = (.ok a, c', st')

namespace Walk.Works

variable {α β : Type} {base : Store} {c : Cursor} {Q : α → Cursor → Prop}

theorem pure (a : α) : Works base (Pure.pure a) c := fun st _ => ⟨a, c, st, rfl⟩

theorem bind {m : Walk α} {f : α → Walk β} (h : Works base m c) (he : m.Ensures base c Q)
    (hf : ∀ a c', Q a c' → Works base (f a) c') : Works base (m >>= f) c := by
  intro st hst
  obtain ⟨a, c₁, st₁, hrun⟩ := h st hst
  obtain ⟨hext, hpost⟩ := he st hst a c₁ st₁ hrun
  obtain ⟨b, c₂, st₂, hrun'⟩ := hf a c₁ hpost st₁ (hst.trans hext)
  exact ⟨b, c₂, st₂, by rw [runOn_bind, hrun]; exact hrun'⟩

/-- Reading the store. -/
theorem store_bind {f : Store → Walk β} (h : ∀ st, base.Extends st → Works base (f st) c) :
    Works base (Walk.store >>= f) c := by
  intro st hst
  obtain ⟨b, c', st', hrun⟩ := h st hst st hst
  exact ⟨b, c', st', by rw [runOn_bind, runOn_store]; exact hrun⟩

/-- Reading the last frame. -/
theorem frame_bind {f : Frame → Walk β} (h : Works base (f c.frame) c) : Works base (Walk.frame >>= f) c := by
  intro st hst
  obtain ⟨b, c', st', hrun⟩ := h st hst
  exact ⟨b, c', st', by rw [runOn_bind, runOn_frame]; exact hrun⟩

theorem move (f : Cursor → Cursor) : Works base (Walk.move f) c := fun st _ => ⟨(), f c, st, rfl⟩

theorem modifyFrame (f : Frame → Frame) : Works base (Walk.modifyFrame f) c := move _

/-- Moving, and what follows from there. -/
theorem move_bind {f : Cursor → Cursor} {g : Unit → Walk β} (h : Works base (g ()) (f c)) :
    Works base (Walk.move f >>= g) c :=
  bind (move f) (Ensures.move (Q := fun _ c' => c' = f c) rfl) fun _ _ hc => hc ▸ h

/-- Working on the stages before the last one. -/
theorem inEarlier {f : Frame} {up : Cursor} {absent : α} {m : Walk α} (h : Works base m up) :
    Works base (Walk.inEarlier absent m) ⟨f, up.frame :: up.earlier⟩ := by
  intro st hst
  obtain ⟨a, up', st', hrun⟩ := h st hst
  refine ⟨a, ⟨f, up'.frame :: up'.earlier⟩, st', ?_⟩
  have hup : (⟨up.frame, up.earlier⟩ : Cursor) = up := rfl
  rw [runOn_inEarlier]
  dsimp only
  rw [hup, hrun]

theorem ite {p : Prop} [Decidable p] {m n : Walk α} (hm : p → Works base m c) (hn : ¬p → Works base n c) :
    Works base (if p then m else n) c := by
  split
  · exact hm ‹_›
  · exact hn ‹_›

/-! ## §B  Repetition -/

/-- A repetition comes to its end if every round but the last one leaves less to do, and there is less to do than
there are rounds. -/
theorem repeatUntil {m : Walk (Option α)} {I : Nat → Cursor → Prop}
    (hm : ∀ n c, I n c → Works base m c ∧ m.Ensures base c fun a? c' => a? = none → ∃ n' < n, I n' c')
    {n : Nat} (hn : n < Walk.limit) (hc : I n c) : Works base (Walk.repeatUntil m) c := by
  have hround : ∀ times n c, n < times → I n c → Works base (Walk.untilSome m times) c := by
    intro times
    induction times with
    | zero => exact fun _ _ hn => absurd hn (Nat.not_lt_zero _)
    | succ times ih =>
      intro n c hn hc
      obtain ⟨hworks, hleft⟩ := hm n c hc
      refine bind hworks hleft fun a? c' hc' => ?_
      cases a? with
      | some a => exact pure a
      | none =>
        obtain ⟨n', hn', hc'⟩ := hc' rfl
        exact ih n' c' (by omega) hc'
  exact hround _ n c hn hc

/-- A walk that answers the elements of a list one by one is collected, if the list is shorter than the number of
rounds. -/
theorem collectAll {m : Walk (Option α)} {I : List α → Cursor → Prop}
    (hm : ∀ l c, I l c → Works base m c ∧ m.Ensures base c fun a? c' => a? = l.head? ∧ I l.tail c')
    {l : List α} (hl : l.length < Walk.limit) (hc : I l c) : Works base (Walk.collectAll m) c := by
  have hround : ∀ times l taken c, l.length < times → I l c → Works base (Walk.collect m times taken) c := by
    intro times
    induction times with
    | zero => exact fun _ _ _ hl => absurd hl (Nat.not_lt_zero _)
    | succ times ih =>
      intro l taken c hl hc
      obtain ⟨hworks, hnext⟩ := hm l c hc
      refine bind hworks hnext fun a? c' hc' => ?_
      obtain ⟨rfl, hc'⟩ := hc'
      cases l with
      | nil => exact pure _
      | cons a l => exact ih l _ c' (by simpa using hl) hc'
  exact hround _ l [] c hl hc

end Walk.Works

/-- **What works in one store works in all**: at a cursor of the base, a walk that is made alike everywhere does not fail
in another store when it has not failed in one. -/
theorem Grounded.works_of_runOn {α : Type} {R : Relation α α} {base : Store} {s : Surroundings} (hs : Grounded base s)
    {m : Walk α} {c c' : Cursor} {st st' : Store} {a : α} (hm : ∀ w, base.Extends w.base → StepAlike w R m m)
    (hc : ∀ w, base.Extends w.base → c.Alike w c) (hst : base.Extends st) (hrun : m.runOn c st = (.ok a, c', st')) :
    m.Works base c := by
  intro st₁ hst₁
  have hbase : base.Extends (World.only base hs.closed).base := .refl hs.sound
  obtain ⟨v, -, -, -, halike⟩ := (hm _ hbase).run (.refl _) (hc _ hbase) (World.holds_only hst hst₁)
  rw [hrun] at halike
  generalize m.runOn c st₁ = run at halike ⊢
  obtain ⟨r, c₁, st₂⟩ := run
  cases halike with
  | ok _ => exact ⟨_, c₁, st₂, rfl⟩

/-! ## §C  Unfailing motions -/

/-- **Unfailing** says that the moves of the cursors that `stands` places among `sets` do not fail. -/
structure Unfailing (base : Store) (m : Motion) (stands : Cursor → Place → Prop) (sets : List (List Pointer)) :
    Prop where
  nextSet : ∀ {c p}, stands c p → m.nextSet.Works base c
  nextNode : ∀ {c p}, stands c p → m.nextNode.Works base c
  setPosition : ∀ {c j i}, stands c (.within j i) → ∀ k, (m.setPosition k).Works base c
  current : ∀ {c j i}, stands c (.within j (i + 1)) → i < (nthSet sets j).length → m.current.Works base c
  /-- There are fewer sets, and fewer nodes in each, than a repetition has rounds. -/
  short : sets.length < Walk.limit ∧ ∀ j, (nthSet sets j).length < Walk.limit

section

variable {base : Store} {m : Motion} {stands : Cursor → Place → Prop} {sets : List (List Pointer)} {c : Cursor}
  {p : Place}

/-- How many sets are to come. -/
def Place.setsLeft (sets : List (List Pointer)) : Place → Nat
  | before => sets.length
  | within j _ => sets.length - (j + 1)
  | after => 0

/-- Entering a set leaves fewer sets. -/
theorem Place.setsLeft_nextSet (p : Place) (h : (p.nextSet sets).isWithin = true) :
    ∃ j, p.nextSet sets = .within j 0 ∧ Place.setsLeft sets (.within j 0) < p.setsLeft sets := by
  cases p with
  | before =>
    simp only [nextSet] at h ⊢
    split at h
    · exact ⟨0, by rw [if_pos ‹_›], by simp only [setsLeft]; omega⟩
    · cases h
  | within j i =>
    simp only [nextSet] at h ⊢
    split at h
    · exact ⟨j + 1, by rw [if_pos ‹_›], by simp only [setsLeft]; omega⟩
    · cases h
  | after => cases h

/-- The next node of a set is in that set. -/
theorem Place.nextNode_within (sets : List (List Pointer)) (j i : Nat) :
    ∃ i', (Place.within j i).nextNode sets = .within j i' := by
  unfold nextNode
  split
  · exact ⟨i + 1, rfl⟩
  · exact ⟨i, rfl⟩

theorem Unfailing.enter (hu : Unfailing base m stands sets) (h : Traverses base m stands sets) (hc : stands c p) :
    m.enter.Works base c := by
  refine Walk.Works.repeatUntil (I := fun n c => ∃ p, stands c p ∧ n = p.setsLeft sets) ?_
    (n := p.setsLeft sets) ?_ ⟨p, hc, rfl⟩
  · rintro _ c ⟨p, hc, rfl⟩
    -- The round is looked at twice: once for its answer, once for what it leaves.
    have hstep : ∀ found c', stands c' (p.nextSet sets) ∧ found = (p.nextSet sets).isWithin → found = true →
        ∃ j, stands c' (.within j 0) ∧ Place.setsLeft sets (.within j 0) < p.setsLeft sets := by
      rintro _ c' ⟨hc', rfl⟩ hfound
      obtain ⟨j, hnext, hlt⟩ := p.setsLeft_nextSet hfound
      exact ⟨j, hnext ▸ hc', hlt⟩
    refine ⟨.bind (hu.nextSet hc) (h.nextSet hc) fun found c' hc' => .ite (fun _ => .pure _) fun hfound => ?_,
      (h.nextSet hc).bind fun found c' hc' => .ite (fun _ => .pure fun he => by cases he) fun hfound => ?_⟩
    · obtain ⟨j, hc', -⟩ := hstep found c' hc' (by simpa using hfound)
      refine .bind (hu.nextNode hc') (h.nextNode hc') fun found' c'' _ => .ite (fun _ => .pure _) fun _ => .pure _
    · obtain ⟨j, hc', hlt⟩ := hstep found c' hc' (by simpa using hfound)
      refine (h.nextNode hc').bind fun found' c'' hc'' => ?_
      obtain ⟨i, hnext⟩ := Place.nextNode_within sets j 0
      rw [hnext] at hc''
      exact .ite (fun _ => .pure fun he => by cases he) fun _ => .pure fun _ => ⟨_, hlt, _, hc''.1, rfl⟩
  · exact Nat.lt_of_le_of_lt (by cases p <;> simp only [Place.setsLeft] <;> omega) hu.short.1

theorem Unfailing.nextOrigin (hu : Unfailing base m stands sets) (h : Traverses base m stands sets) (hc : stands c p)
    (started : Bool) : (m.nextOrigin started).Works base c := by
  cases started with
  | false => exact hu.enter h hc
  | true =>
    refine .bind (hu.nextNode hc) (h.nextNode hc) fun found c' hc' => .ite (fun _ => .pure _) fun _ => ?_
    exact hu.enter h hc'.1

theorem Unfailing.listSet (hu : Unfailing base m stands sets) (h : Traverses base m stands sets) {j i : Nat}
    (hc : stands c (.within j (i + 1))) : m.listSet.Works base c := by
  refine .frame_bind (.ite (fun _ => .move_bind ?_) fun hz => ?_)
  · have hnode : ∀ l c, (∃ i, stands c (.within j i) ∧ l = (nthSet sets j).drop i) → m.take.Works base c ∧
        m.take.Ensures base c fun p? c' => p? = l.head? ∧ ∃ i, stands c' (.within j i) ∧
          l.tail = (nthSet sets j).drop i := by
      rintro l c ⟨i, hc, rfl⟩
      refine ⟨.bind (hu.nextNode hc) (h.nextNode hc) fun _ _ _ => .ite (fun _ => .frame_bind (.pure _)) fun _ =>
        .pure _, (h.take hc).mono fun p? c' hc' => ?_⟩
      obtain ⟨hp, i', hc', htail⟩ := hc'
      exact ⟨hp, i', hc', htail⟩
    have hstart : ∃ i, stands c.rewound (.within j i) ∧ nthSet sets j = (nthSet sets j).drop i :=
      ⟨0, h.rewound hc, rfl⟩
    refine .bind (.collectAll hnode (hu.short.2 j) hstart) (.collectAll (fun l c hc => (hnode l c hc).2) hstart)
      fun nodes c' hc' => ?_
    obtain ⟨-, ⟨i', hc', -⟩, -⟩ := hc'
    exact .bind (hu.setPosition hc' _) (h.setPosition hc' _) fun _ _ _ => .pure _
  · exact absurd (by simp [(h.faces hc).2.1]) hz

theorem Unfailing.first (hu : Unfailing base m stands sets) (h : Traverses base m stands sets)
    (hc : stands c .before) (hfresh : c.restarted = c) : m.first.Works base c := by
  refine .move_bind ?_
  rw [hfresh]
  exact .bind (hu.enter h hc) (h.enter hc) fun _ _ _ => .ite (fun _ => .frame_bind (.pure _)) fun _ => .pure _

/-- A stage that does not fail answers exactly what the list of its set answers. -/
theorem Unfailing.queries (hu : Unfailing base m stands sets) (h : Traverses base m stands sets) {s : Surroundings}
    (closed : base.Closed) {j i : Nat} (hi : i < (nthSet sets j).length)
    (hp : (nthSet sets j)[i].Within base.documents.size) :
    Queries (.only base closed) (.listed stands sets j i) False m (listMotion s) where
  current := by
    rintro v hv c d st st' ⟨hc, rfl⟩ hst
    have hb : v.base = base := hv.base
    have hbase : base.Extends st := hb ▸ hst.left
    obtain ⟨a, c', st₁, hrun⟩ := hu.current hc hi st hbase
    rcases (h.queries closed hi hp).current v hv c _ st st' ⟨hc, rfl⟩ hst with ⟨-, e, he⟩ | hres
    · rw [hrun] at he
      cases he
    · exact .inr hres
  listSet := by
    rintro v hv c d st st' ⟨hc, rfl⟩ hst
    have hb : v.base = base := hv.base
    have hbase : base.Extends st := hb ▸ hst.left
    obtain ⟨a, c', st₁, hrun⟩ := hu.listSet h hc st hbase
    rcases (h.queries closed hi hp).listSet v hv c _ st st' ⟨hc, rfl⟩ hst with ⟨-, e, he⟩ | hres
    · rw [hrun] at he
      cases he
    · exact .inr hres
  position := (h.queries (s := s) closed hi hp).position

/-- **A predicate that can be judged on the list of the set** can be judged at the stage. -/
theorem Unfailing.test (hu : Unfailing base m stands sets) (h : Traverses base m stands sets) {s : Surroundings}
    (hs : Grounded base s) {e : Expr} {j i : Nat} (hc : stands c (.within j (i + 1)))
    (hi : i < (nthSet sets j).length) (hp : (nthSet sets j)[i].Within base.documents.size) {d : Datum}
    (hjudge : (s.judge base e (nthSet sets j) (i + 1)).1 = .ok d) : (s.test m e).Works base c := by
  intro st hst
  have hbase : base.Extends base := .refl hs.sound
  -- Nothing may be excused here: a failure at the stage would be one on the list, where there is none.
  have halike := (hs.natural (.only base hs.closed) hbase).test _ (.listed stands sets j i) False m (listMotion s) e
    (.refl _) fun _ => hu.queries h hs.closed hi hp
  obtain ⟨v, -, -, -, hr⟩ := (halike _ (.refl _) c (.at (nthSet sets j) (i + 1)) st base ⟨hc, rfl⟩
    (World.holds_only hst hbase)).resolve_left fun hl => hl.1
  simp only [Surroundings.judge] at hjudge
  rw [hjudge] at hr
  generalize (s.test m e).runOn c st = run at hr
  obtain ⟨r, c', st'⟩ := run
  cases hr with
  | ok _ => exact ⟨_, c', st', rfl⟩

end

/-! ## §D  Stages -/

section

variable {base : Store} {s : Surroundings} {up : Motion} {holds : Cursor → Place → Prop}
  {sets : List (List Pointer)} {c : Cursor} {p : Place}

/-- A repetition has a round for every position. -/
theorem Number.exactBound_lt_limit : Number.exactBound < Walk.limit := by decide

/-- **SuppliesSafely** says that looking for the next set of a stage and producing its next node do not fail. -/
structure SuppliesSafely (base : Store) (s : Surroundings) (up : Motion) (holds : Cursor → Place → Prop)
    (sets : List (List Pointer)) : Prop where
  findSet : ∀ {c p}, holds c p → (up.findSet c.frame).Works base c
  produce : ∀ {c j i}, holds c (.within j i) → c.frame.position = i → (up.produce s).Works base c
  short : sets.length < Walk.limit ∧ ∀ j, (nthSet sets j).length < Walk.limit

namespace SuppliesSafely

theorem advanceSet (hsafe : SuppliesSafely base s up holds sets) (h : Supplies base s up holds sets)
    (hc : StandsBy holds sets c p) : up.advanceSet.Works base c := by
  have hr := h.stands_rewound hc
  refine .move_bind (.frame_bind (.ite (fun _ => .pure _) fun hne => ?_))
  have hafter : p.rewound ≠ .after := fun hp => hne (by have hf := hr.faces; rw [hp] at hf; simp [hf.1])
  refine .bind (hsafe.findSet hr.holds) (h.findSet hr.holds hr.faces hafter
    (by rw [Cursor.rewound_frame]; exact Cursor.rewound_rewound _)) fun found c' _ => ?_
  exact .bind (.modifyFrame _) (.modifyFrame (Q := fun _ _ => True) trivial) fun _ _ _ => .pure _

theorem isInSet (hsafe : SuppliesSafely base s up holds sets) (h : Supplies base s up holds sets)
    (hc : StandsBy holds sets c p) : up.isInSet.Works base c := by
  refine .frame_bind ?_
  cases c.frame.progress with
  | exhausted => exact .pure _
  | notStarted => exact hsafe.advanceSet h hc
  | inSet => exact .pure _

theorem advanceNode (hsafe : SuppliesSafely base s up holds sets) (h : Supplies base s up holds sets)
    (hc : StandsBy holds sets c p) : (up.advanceNode s).Works base c := by
  refine .bind (hsafe.isInSet h hc) (h.isInSet hc) fun inside c' hc' => ?_
  obtain ⟨hc', rfl⟩ := hc'
  generalize p.entered sets = q at hc' ⊢
  cases q with
  | before => exact .pure _
  | after => exact .pure _
  | within j i =>
    obtain ⟨-, hposition, -⟩ := hc'.faces
    refine .bind (hsafe.produce hc'.holds hposition) (h.produce hc'.holds hposition) fun p? c'' _ => ?_
    cases p? with
    | none => exact .pure _
    | some q => exact .bind (.modifyFrame _) (.modifyFrame (Q := fun _ _ => True) trivial) fun _ _ _ => .pure _

theorem advanceTo (hsafe : SuppliesSafely base s up holds sets) (h : Supplies base s up holds sets) {j i : Nat}
    (hc : StandsBy holds sets c (.within j i)) (k : Nat) : (up.advanceTo s k).Works base c := by
  refine Walk.Works.repeatUntil (n := (nthSet sets j).length - i)
    (I := fun n c => ∃ i, StandsBy holds sets c (.within j i) ∧ n = (nthSet sets j).length - i) ?_
    (Nat.lt_of_le_of_lt (Nat.sub_le _ _) (hsafe.short.2 j)) ⟨i, hc, rfl⟩
  rintro _ c ⟨i, hc, rfl⟩
  refine ⟨.frame_bind (.ite (fun _ => ?_) fun _ => .pure _), .frame_bind (.ite (fun _ => ?_) fun _ => ?_)⟩
  · exact .bind (hsafe.advanceNode h hc) (h.advanceNode hc) fun _ _ _ => .ite (fun _ => .pure _) fun _ => .pure _
  · refine (h.advanceNode hc).bind fun found c' hc' => ?_
    obtain ⟨rfl, hi, hc'⟩ | ⟨rfl, -, -⟩ := Place.nextNode_cases hc'
    · exact .pure fun _ => ⟨_, by omega, i + 1, hc', rfl⟩
    · exact .pure nofun
  · exact .pure fun he => by cases he

theorem moveTo (hsafe : SuppliesSafely base s up holds sets) (h : Supplies base s up holds sets) {j i : Nat}
    (hc : StandsBy holds sets c (.within j i)) (k : Nat) : (up.moveTo s k).Works base c := by
  refine .frame_bind (.ite (fun _ => .move_bind (.pure _)) fun _ => ?_)
  cases Motion.knownAt? k c.frame.stage with
  | some found => exact .bind (.modifyFrame _) (.modifyFrame (Q := fun _ _ => True) trivial) fun _ _ _ => .pure _
  | none =>
    refine .ite (fun _ => .pure _) fun _ => .ite (fun _ => .move_bind ?_) fun _ => hsafe.advanceTo h hc k
    exact hsafe.advanceTo h (h.stands_rewound hc) k

theorem nodeHere (hsafe : SuppliesSafely base s up holds sets) (h : Supplies base s up holds sets) {j i : Nat}
    (hc : StandsBy holds sets c (.within j i)) : (up.nodeHere s).Works base c := by
  have hmoved : (do
      if c.frame.position == 0 then
        if !(← up.moveTo s 1) then return none
      Pure.pure (← Walk.frame).current : Walk (Option Pointer)).Works base c := by
    refine .ite (fun _ => ?_) fun _ => .frame_bind (.pure _)
    exact .bind (hsafe.moveTo h hc 1) (h.moveTo hc 1) fun _ _ _ => .ite (fun _ => .pure _) fun _ =>
      .frame_bind (.pure _)
  refine .frame_bind ?_
  cases c.frame.stage with
  | start origin members =>
    cases members with
    | some members => exact hmoved
    | none => exact .pure _
  | known nodes order => exact hmoved
  | axis a t pending => exact hmoved
  | condition e positional done => exact hmoved

/-- **A stage that supplies safely makes a motion that is unfailing.** -/
theorem unfailing (hsafe : SuppliesSafely base s up holds sets) (h : Supplies base s up holds sets) :
    Unfailing base (up.next s) (StandsBy holds sets) sets where
  nextSet := hsafe.advanceSet h
  nextNode := hsafe.advanceNode h
  setPosition := hsafe.moveTo h
  current hc _ := hsafe.nodeHere h hc
  short := hsafe.short

end SuppliesSafely

end

/-! ## §E  Known nodes and axes -/

section

variable {base : Store} {has : Pointer → Prop} {s : Surroundings} {up : Motion} {stands : Cursor → Place → Prop}
  {sets : List (List Pointer)}

theorem suppliesSafely_known {stage : Stage} {nodes : List Pointer} (hstage : stage.knows = some nodes)
    (hnodes : nodes.length < Walk.limit) : SuppliesSafely base s .still (KnowsAt stage) [nodes] where
  findSet := by
    rintro c p ⟨hc, -, -⟩
    rw [Stage.knows_findSet (hc ▸ hstage)]
    exact .pure _
  produce := by
    rintro c j i ⟨hc, -, -⟩ -
    refine .frame_bind ?_
    rw [hc]
    cases stage with
    | start origin members => cases members <;> exact .pure _
    | known nodes order => exact .pure _
    | axis a t pending => cases hstage
    | condition e positional done => cases hstage
  short := by
    refine ⟨show 1 < Walk.limit by decide, fun j => ?_⟩
    cases j with
    | zero => exact hnodes
    | succ j => exact show 0 < Walk.limit by decide

theorem Unfailing.suppliesSafely_madeAlong (hu : Unfailing base up stands sets) (h : Traverses base up stands sets)
    (hs : Grounded base s) (hr : Realm base has) {along : Pointer → List Pointer} {a : Axis} {t : NodeTest}
    (hmade : MadeAlong base has s a t along sets.flatten) (hshort : sets.flatten.length < Walk.limit) :
    SuppliesSafely base s up (AlongAt base has s stands sets along a t) (sets.flatten.map along) where
  findSet := by
    rintro _ _ hc
    obtain ⟨f, c, q, pending, rfl, hstage, hup, -⟩ := hc.stages
    simp only [Motion.findSet, hstage]
    exact .inEarlier (hu.nextOrigin h hup _)
  produce := by
    rintro _ j i hc -
    cases hc with
    | @within f c _ _ k l x pending hstage hup hx hrest hpending =>
      obtain ⟨-, hmem, -⟩ := nthSet_along along hrest
      obtain ⟨y, hopens, halong⟩ := hmade x hmem
      rw [halong] at hpending
      refine .frame_bind ?_
      simp only [hstage]
      -- The nodes of a set that has just been entered are looked up from its origin, which the earlier stage is at.
      have hpendingNodes : (up.pendingNodes a pending).Works base ⟨f, c.frame :: c.earlier⟩ := by
        cases pending with
        | some nodes => exact .pure _
        | none =>
          refine .bind (.inEarlier (hu.current hup (List.getElem?_eq_some_iff.mp hx).1))
            (Walk.Ensures.inEarlier (Q := fun p? _ => p? = some x) ((h.current hup x hx).mono fun _ _ hp => hp.2))
            fun p? c' hp => ?_
          subst hp
          intro st hst
          refine ⟨some (a.nodes y st), c', st, ?_⟩
          dsimp only
          rw [Walk.runOn_bind, Walk.runOn_lift, hopens.2 hst]
          rfl
      refine .bind hpendingNodes (h.pendingNodes hs hr hup hx hopens hpending) fun nodes? c' _ => ?_
      cases nodes? with
      | none => exact .pure _
      | some nodes =>
        exact .store_bind fun st _ => .bind (.modifyFrame _) (.modifyFrame (Q := fun _ _ => True) trivial)
          fun _ _ _ => .pure _
  short := by
    refine ⟨by rwa [List.length_map], fun j => ?_⟩
    rw [nthSet, List.getElem?_map]
    cases hj : sets.flatten[j]? with
    | none => exact show 0 < Walk.limit by decide
    | some x =>
      obtain ⟨y, hopens, halong⟩ := hmade x (List.mem_of_getElem? hj)
      show (along x).length < Walk.limit
      rw [halong]
      exact ((List.length_filter_le _ _).trans (hr.narrow hopens.1)).trans_lt Number.exactBound_lt_limit

theorem Unfailing.suppliesSafely_along (hu : Unfailing base up stands sets) (h : Traverses base up stands sets)
    (hs : Grounded base s) (hr : Realm base has) (hcover : Realm.Covers has sets) (a : Axis) (t : NodeTest)
    (hshort : sets.flatten.length < Walk.limit) :
    SuppliesSafely base s up (AlongAt base has s stands sets (s.along base a t) a t)
      (sets.flatten.map (s.along base a t)) :=
  hu.suppliesSafely_madeAlong h hs hr (hcover.madeAlong hr a t) hshort

/-! ## §F  Conditions -/

variable {e : Expr} {c : Cursor} {j k : Nat}

/-- Whether a predicate can be judged at every position of a list. -/
def Surroundings.CanJudge (s : Surroundings) (base : Store) (e : Expr) (nodes : List Pointer) : Prop :=
  ∀ i < nodes.length, ∃ d, (s.judge base e nodes (i + 1)).1 = .ok d

/-- What is concluded at a node does not fail, and unless it ends the search it leaves the cursor there. -/
theorem Unfailing.conclude (hu : Unfailing base up stands sets) (h : Traverses base up stands sets)
    (hk : k < (nthSet sets j).length) (hc : stands c (.within j (k + 1))) (d : Datum) (positional : Bool) :
    (up.conclude d positional).Works base c ∧
      (up.conclude d positional).Ensures base c fun found? c' => found? = none → stands c' (.within j (k + 1)) := by
  have hcurrent := h.current hc _ (List.getElem?_eq_getElem hk)
  have hsettle : ∀ selected : Bool, (up.settle selected).Works base c ∧
      (up.settle selected).Ensures base c fun found? c' => found? = none → stands c' (.within j (k + 1)) := by
    intro selected
    cases selected with
    | true => exact ⟨.bind (hu.current hc hk) hcurrent fun _ _ _ => .pure _, hcurrent.bind fun _ _ _ => .pure nofun⟩
    | false => exact ⟨.pure _, .pure fun _ => hc⟩
  rcases up.conclude_cases d positional with ⟨x, -, -, heq⟩ | ⟨-, heq⟩
  · rw [heq]
    exact ⟨.pure _, .pure nofun⟩
  · rw [heq]
    constructor
    · intro st hst
      obtain ⟨selected, hverdict⟩ := Motion.runOn_verdict d c st
      rw [Walk.runOn_bind, hverdict]
      exact (hsettle selected).1 st hst
    · intro st hst found? c' st' hrun
      obtain ⟨selected, hverdict⟩ := Motion.runOn_verdict d c st
      rw [Walk.runOn_bind, hverdict] at hrun
      exact (hsettle selected).2 st hst found? c' st' hrun

/-- Looking at one node does not fail, and unless it ends the search it leaves the cursor at that node. -/
theorem Unfailing.tryNext (hu : Unfailing base up stands sets) (h : Traverses base up stands sets)
    (hs : Grounded base s) (hr : Realm base has) (hcover : Realm.Covers has sets)
    (hjudge : s.CanJudge base e (nthSet sets j)) (hc : stands c (.within j k)) (positional : Bool) :
    (up.tryNext s e positional).Works base c ∧ (up.tryNext s e positional).Ensures base c fun found? c' =>
      found? = none → stands c' (.within j (k + 1)) ∧ k < (nthSet sets j).length := by
  rw [Motion.tryNext_eq]
  have hnext := h.nextNode_within hc
  have htest : ∀ {c₁}, k < (nthSet sets j).length → stands c₁ (.within j (k + 1)) → (s.test up e).Works base c₁ ∧
      (s.test up e).Ensures base c₁ fun _ c₂ => stands c₂ (.within j (k + 1)) := by
    intro c₁ hk hc₁
    have hwithin := hr.within (hcover.nodes (List.getElem_mem hk))
    obtain ⟨d, hd⟩ := hjudge k hk
    refine ⟨hu.test h hs hc₁ hk hwithin hd, fun st hst d c₂ st₁ hrun => ?_⟩
    obtain ⟨hext, hc₂, -⟩ := h.test hs e hc₁ hk hwithin hst hrun
    exact ⟨hext, hc₂⟩
  constructor
  · refine .bind (hu.nextNode hc) hnext fun found c₁ hc₁ => ?_
    obtain ⟨rfl, hk, hc₁⟩ | ⟨rfl, -, -⟩ := hc₁
    · exact .bind (htest hk hc₁).1 (htest hk hc₁).2 fun d c₂ hc₂ => (hu.conclude h hk hc₂ d positional).1
    · exact .pure _
  · refine hnext.bind fun found c₁ hc₁ => ?_
    obtain ⟨rfl, hk, hc₁⟩ | ⟨rfl, -, -⟩ := hc₁
    · refine (htest hk hc₁).2.bind fun d c₂ hc₂ => ?_
      exact (hu.conclude h hk hc₂ d positional).2.mono fun _ _ hleft hnone => ⟨hleft hnone, hk⟩
    · exact .pure nofun

theorem Unfailing.nodeAt (hu : Unfailing base up stands sets) (h : Traverses base up stands sets)
    (hc : stands c (.within j k)) (x : Float) : (up.nodeAt x).Works base c := by
  refine .ite (fun hx => ?_) fun _ => .pure _
  rw [Bool.and_eq_true, decide_eq_true_iff] at hx
  obtain ⟨i, hi⟩ : ∃ i, Number.toIndex x = i + 1 :=
    ⟨Number.toIndex x - 1, by have := Number.one_le_toIndex hx.1 hx.2; omega⟩
  rw [hi]
  refine .bind (hu.setPosition hc _) (h.setPosition hc _) fun found c₁ hc₁ => ?_
  obtain ⟨k', hc₁, rfl, hk'⟩ := hc₁
  refine .ite (fun hlen => ?_) fun _ => .pure _
  obtain rfl := hk' hlen
  exact hu.current hc₁ (of_decide_eq_true hlen)

theorem Unfailing.suppliesSafely_condition (hu : Unfailing base up stands sets) (h : Traverses base up stands sets)
    (hs : Grounded base s) (hr : Realm base has) (hcover : Realm.Covers has sets)
    (hjudge : ∀ j, s.CanJudge base e (nthSet sets j)) :
    SuppliesSafely base s up (ConditionAt base s stands sets e) (sets.map (s.keep base e)) where
  findSet := by
    rintro _ _ hc
    obtain ⟨f, c, q, done, rfl, hstage, hup, -⟩ := hc.stages
    simp only [Motion.findSet, hstage]
    exact .inEarlier (hu.nextSet hup)
  produce := by
    rintro _ j i hc -
    refine .frame_bind ?_
    cases hc with
    | done hstage hup _ =>
      simp only [hstage]
      exact .pure _
    | @searching f c₀ _ _ k hstage hup hrest hconst =>
      simp only [hstage]
      -- Each round takes one node of the set: what is left of it bounds the rounds.
      have hround : ∀ n c, (∃ k, stands c (.within j k) ∧ n = (nthSet sets j).length - k) →
          (up.tryNext s e (!e.isContextDependent)).Works base c ∧
            (up.tryNext s e (!e.isContextDependent)).Ensures base c fun found? c' =>
              found? = none → ∃ n' < n, ∃ k, stands c' (.within j k) ∧ n' = (nthSet sets j).length - k := by
        rintro _ c ⟨k, hc, rfl⟩
        obtain ⟨hworks, hleft⟩ := hu.tryNext h hs hr hcover (hjudge j) hc (!e.isContextDependent)
        refine ⟨hworks, hleft.mono fun found? c' hc' hnone => ?_⟩
        obtain ⟨hc', hk⟩ := hc' hnone
        exact ⟨_, by omega, k + 1, hc', rfl⟩
      have hsearch := Walk.Works.repeatUntil hround (Nat.lt_of_le_of_lt (Nat.sub_le _ k) (hu.short.2 j)) ⟨k, hup, rfl⟩
      have hfound : (Walk.repeatUntil (up.tryNext s e (!e.isContextDependent))).Ensures base c₀ fun _ c₁ =>
          ∃ k, stands c₁ (.within j k) := (h.search hs hr hcover hup hrest hconst).mono fun _ _ hfound => hfound.inSet
      refine .ite (fun _ => .pure _) fun _ => .bind (.inEarlier hsearch) (Walk.Ensures.inEarlier
        (Q := fun _ c' => ∃ c₁, c' = ⟨f, c₁.frame :: c₁.earlier⟩ ∧ ∃ k, stands c₁ (.within j k))
        (hfound.mono fun _ c₁ hc₁ => ⟨c₁, rfl, hc₁⟩)) fun found c' hc' => ?_
      obtain ⟨c₁, rfl, k', hc₁⟩ := hc'
      cases found with
      | missing => exact .pure _
      | node p? => exact .pure _
      | position x =>
        exact .bind (.modifyFrame _) (.modifyFrame (Q := fun _ c' =>
          c' = ⟨{ f with stage := .condition e (!e.isContextDependent) true }, c₁.frame :: c₁.earlier⟩) rfl)
          fun _ c' hc' => hc' ▸ .inEarlier (hu.nodeAt h hc₁ x)
  short := by
    refine ⟨by rw [List.length_map]; exact hu.short.1, fun j => ?_⟩
    rw [nthSet_keep]
    exact Nat.lt_of_le_of_lt (Surroundings.keep_length_le _ _) (hu.short.2 j)

end

end NodePath
