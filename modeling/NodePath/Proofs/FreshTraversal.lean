/-
# NodePath.Proofs.FreshTraversal — what one traversal without an error promises

A cursor that has gone through all its sets once, from before everything, without an error, has been wherever its
moves can take it. What a walk does at a cursor is the same in every store that extends the base, and going back
leads to cursors that have been there: so no move can fail afterwards, whatever predicates are among the stages, and
the moves are those of a plain cursor over the sets of that traversal.

* §A  Alikeness leaves no choice.
* §B  One run tells all.
* §C  `Enumerable` and `Replayable`.
* §D  A fresh traversal.
* §E  Cursors that are sure.
* §F  Chains of stages.
* §G  The moves of a chain.
-/
import NodePath.Proofs.LocationPath
import NodePath.Proofs.RandomAccess
import NodePath.Proofs.Retracing

namespace NodePath

/-! ## §A  One alike cursor -/

section

variable {w : World}

theorem Pointer.Alike.rightUnique : Relator.RightUnique (Pointer.Alike w) := by
  intro p q q' h h'
  induction h generalizing q' with
  | json path asAttribute b rootName hpair =>
    cases h' with
    | json _ _ _ _ hpair' => rw [w.right_unique hpair hpair']
  | absentUnder n _ ih =>
    cases h' with
    | absentUnder _ h' => rw [ih h']
  | _ => cases h'; rfl

theorem PointersAlike.rightUnique : Relator.RightUnique (PointersAlike w) :=
  Relator.RightUnique.forall₂ Pointer.Alike.rightUnique

theorem Option.Rel.rightUnique {α β : Type} {R : α → β → Prop} (hR : Relator.RightUnique R) :
    Relator.RightUnique (Option.Rel R) := by
  intro a? b? b?' h h'
  cases h with
  | none => cases h'; rfl
  | some h =>
    cases h' with
    | some h' => rw [hR h h']

theorem Stage.Alike.rightUnique : Relator.RightUnique (Stage.Alike w) := by
  have hnodes : Relator.RightUnique (Option.Rel (PointersAlike w)) := Option.Rel.rightUnique PointersAlike.rightUnique
  intro s t t' h h'
  cases h with
  | start hp hs =>
    cases h' with
    | start hp' hs' => rw [Pointer.Alike.rightUnique hp hp', hnodes hs hs']
  | known order hs =>
    cases h' with
    | known _ hs' => rw [PointersAlike.rightUnique hs hs']
  | axis a t hs =>
    cases h' with
    | axis _ _ hs' => rw [hnodes hs hs']
  | condition e positional done => cases h'; rfl

theorem Frame.Alike.rightUnique : Relator.RightUnique (Frame.Alike w) := by
  rintro f ⟨stage, position, current, progress, sorted⟩ ⟨stage', position', current', progress', sorted'⟩ h h'
  obtain rfl : stage = stage' := Stage.Alike.rightUnique h.stage h'.stage
  obtain rfl : position = position' := h.position.symm.trans h'.position
  obtain rfl : current = current' := Option.Rel.rightUnique Pointer.Alike.rightUnique h.current h'.current
  obtain rfl : progress = progress' := h.progress.symm.trans h'.progress
  obtain rfl : sorted = sorted' := Option.Rel.rightUnique PointersAlike.rightUnique h.sorted h'.sorted
  rfl

/-- **A cursor is alike to one cursor only.** -/
theorem Cursor.Alike.rightUnique : Relator.RightUnique (Cursor.Alike w) := by
  rintro c ⟨f, fs⟩ ⟨f', fs'⟩ h h'
  obtain rfl : f = f' := Frame.Alike.rightUnique h.frame h'.frame
  obtain rfl : fs = fs' := Relator.RightUnique.forall₂ Frame.Alike.rightUnique h.earlier h'.earlier
  rfl

end

/-! ## §B  One run -/

section

variable {base : Store} {s : Surroundings} {m : Motion} {stands : Cursor → Place → Prop}
  {sets : List (List Pointer)} {start c c' : Cursor} {p : Place} {j : Nat} {st st' : Store} {b : Bool}

/-- **One run tells all**: what a walk comes to in one store, it comes to in every store that extends the base. -/
theorem Traverses.certain (h : Traverses base m stands sets) (hs : Grounded base s) {n : Walk Bool}
    (hn : ∀ w, base.Extends w.base → StepAlike w (.eq Bool) n n) {Q : Bool → Cursor → Prop}
    (hQ : n.Ensures base c Q) (hstands : ∀ b c', Q b c' → ∃ p', stands c' p') (hc : stands c p)
    (hst : base.Extends st) (hrun : n.runOn c st = (.ok b, c', st')) :
    n.Yields base c fun b' c'' => b' = b ∧ c'' = c' := by
  obtain ⟨hext, hpost⟩ := hQ st hst b c' st' hrun
  obtain ⟨p', hc'⟩ := hstands b c' hpost
  -- The walk is compared with itself in another store; as a cursor is alike to one cursor only, it leaves the same one.
  have hbase : base.Extends (World.only base hs.closed).base := .refl hs.sound
  have hsame : ∀ st₁, base.Extends st₁ → ∃ st₁', n.runOn c st₁ = (.ok b, c', st₁') := by
    intro st₁ hst₁
    obtain ⟨v, hv, halike, -, hresult⟩ :=
      StepAlike.run (hn _ hbase) (.refl _) (h.settled hc _ hbase) (World.holds_only hst hst₁)
    rw [hrun] at halike hresult
    generalize n.runOn c st₁ = run at halike hresult ⊢
    obtain ⟨r, c₁, st₁'⟩ := run
    obtain rfl : c' = c₁ := Cursor.Alike.rightUnique (h.settled hc' v (hv.base ▸ hbase)) halike
    cases hresult with
    | ok hb => exact ⟨st₁', by rw [show b = _ from hb]⟩
  constructor
  · intro st₁ hst₁
    obtain ⟨st₁', hrun₁⟩ := hsame st₁ hst₁
    exact ⟨b, c', st₁', hrun₁⟩
  · intro st₁ hst₁ b' c'' st₁'' hrun'
    obtain ⟨st₁', hrun₁⟩ := hsame st₁ hst₁
    refine ⟨(hQ st₁ hst₁ b' c'' st₁'' hrun').1, ?_⟩
    rw [hrun₁] at hrun'
    cases hrun'
    exact ⟨rfl, rfl⟩

theorem Traverses.certain_nextNode (h : Traverses base m stands sets) (hs : Grounded base s) (hc : stands c p)
    (hst : base.Extends st) (hrun : m.nextNode.runOn c st = (.ok b, c', st')) :
    m.nextNode.Yields base c fun b' c'' => b' = b ∧ c'' = c' :=
  h.certain hs (fun w hw => (h.natural w hw).nextNode) (h.nextNode hc) (fun _ _ hc' => ⟨_, hc'.1⟩) hc hst hrun

theorem Traverses.certain_nextSet (h : Traverses base m stands sets) (hs : Grounded base s) (hc : stands c p)
    (hst : base.Extends st) (hrun : m.nextSet.runOn c st = (.ok b, c', st')) :
    m.nextSet.Yields base c fun b' c'' => b' = b ∧ c'' = c' :=
  h.certain hs (fun w hw => (h.natural w hw).nextSet) (h.nextSet hc) (fun _ _ hc' => ⟨_, hc'.1⟩) hc hst hrun

/-! ## §C  What is to come -/

/-- **Enumerable** says that the nodes that are left in the set of a cursor are sure to be gone to, one after the
other, and that the cursor rests behind them. -/
inductive Enumerable (base : Store) (m : Motion) : Cursor → Prop
  | rests {c : Cursor} : m.Rests base c → Enumerable base m c
  | next {c c' : Cursor} : (m.nextNode.Yields base c fun _ c₁ => c₁ = c') → Enumerable base m c' → Enumerable base m c

/-- **Replayable** says that the sets that are to come are sure to be entered, one after the other, and that each can
be enumerated. -/
inductive Replayable (base : Store) (m : Motion) : Cursor → Prop
  | last {c : Cursor} : (m.nextSet.Yields base c fun found _ => found = false) → Replayable base m c
  | next {c c' : Cursor} : (m.nextSet.Yields base c fun _ c₁ => c₁ = c') → Enumerable base m c' →
    Replayable base m c' → Replayable base m c

theorem Enumerable.nextNode (h : Enumerable base m c) : m.nextNode.Yields base c fun _ c' => Enumerable base m c' := by
  cases h with
  | rests h =>
    refine ⟨fun st hst => ⟨_, _, _, h st hst⟩, fun st hst b c' st' hrun => ?_⟩
    rw [h st hst] at hrun
    cases hrun
    exact ⟨.refl hst.sound, .rests h⟩
  | next hyields h => exact hyields.mono fun _ c' hc' => hc' ▸ h

theorem Replayable.nextSet (h : Replayable base m c) : m.nextSet.Yields base c fun found c' =>
    found = true → Enumerable base m c' ∧ Replayable base m c' := by
  cases h with
  | last hyields => exact hyields.mono fun found _ hfound ht => absurd (hfound.symm.trans ht) Bool.false_ne_true
  | next hyields henumerable h => exact hyields.mono fun _ c' hc' _ => hc' ▸ ⟨henumerable, h⟩

/-! ## §D  A fresh traversal -/

/-- The nodes of the next set. -/
def Motion.nextList (m : Motion) : Walk (Option (List Pointer)) := do
  if ← m.nextSet then pure (some (← Walk.collectAll m.take)) else pure none

/-- **traversal** goes through all sets that are to come, and lists each. -/
def Motion.traversal (m : Motion) : Walk (List (List Pointer)) := Walk.collectAll m.nextList

/-- A set that was gone through without an error can be enumerated. -/
theorem Traverses.enumerable (h : Traverses base m stands sets) (hr : Retraces base m stands start) (hs : Grounded base s)
    {times i : Nat} {taken nodes : List Pointer} (hc : stands c (.within j i)) (hst : base.Extends st)
    (hrun : (Walk.collect m.take times taken).runOn c st = (.ok nodes, c', st')) :
    Enumerable base m c ∧ st.Extends st' ∧ (∃ i', stands c' (.within j i')) ∧ c'.rewound = c.rewound := by
  induction times generalizing c st taken i with
  | zero => cases hrun
  | succ times ih =>
    obtain ⟨p?, c₁, st₁, htake, hrest⟩ := Walk.of_runOn_bind hrun
    obtain ⟨found, c₂, st₂, hnext, htaken⟩ := Walk.of_runOn_bind htake
    obtain ⟨hext, hc₂, hfound⟩ := h.nextNode hc st hst _ _ _ hnext
    obtain ⟨-, hback, hrests⟩ := hr.nextNode hc st hst _ _ _ hnext
    have hyields := (h.certain_nextNode hs hc hst hnext).mono fun _ _ hd => hd.2
    cases found with
    | false =>
      rw [if_neg Bool.false_ne_true, Walk.runOn_pure] at htaken
      cases htaken
      cases hrest
      obtain ⟨i', hplace⟩ := Place.nextNode_within sets j i
      exact ⟨.next hyields (.rests (hrests rfl)), hext, ⟨i', hplace ▸ hc₂⟩, hback⟩
    | true =>
      have hlen := (Place.nextNode_of_hasNext hfound.symm).2
      have hcurrent := (h.faces hc₂).current_eq
      rw [Place.node_nextNode hfound.symm, List.getElem?_eq_getElem hlen] at hcurrent
      rw [if_pos rfl, Walk.runOn_frame_bind, Walk.runOn_pure, hcurrent] at htaken
      cases htaken
      obtain ⟨i', hplace⟩ := Place.nextNode_within sets j i
      obtain ⟨henumerable, hext', hend, hback'⟩ := ih (hplace ▸ hc₂) (hst.trans hext) hrest
      exact ⟨.next hyields henumerable, hext.trans hext', hend, hback'.trans hback⟩

/-- **What was gone through without an error can be replayed.** -/
theorem Traverses.replayable (h : Traverses base m stands sets) (hr : Retraces base m stands start) (hs : Grounded base s)
    (hagain : ∀ c st, m.nextSet.runOn c.rewound st = m.nextSet.runOn c st) {times : Nat}
    {taken lists : List (List Pointer)} (hc : stands c p) (hst : base.Extends st)
    (hrun : (Walk.collect m.nextList times taken).runOn c st = (.ok lists, c', st')) :
    Replayable base m c.rewound := by
  induction times generalizing c st taken p with
  | zero => cases hrun
  | succ times ih =>
    obtain ⟨nodes?, c₁, st₁, hlist, hrest⟩ := Walk.of_runOn_bind hrun
    obtain ⟨found, c₂, st₂, hnext, hlisted⟩ := Walk.of_runOn_bind hlist
    obtain ⟨hext, hc₂, hfound⟩ := h.nextSet hc st hst _ _ _ hnext
    obtain ⟨-, hback⟩ := hr.nextSet hc st hst _ _ _ hnext
    have hyields : m.nextSet.Yields base c.rewound fun b' c'' => b' = found ∧ c'' = c₂ :=
      (h.certain_nextSet hs hc hst hnext).congr (hagain c)
    cases found with
    -- The run has found no further set, and does not find one when the cursor is put back first.
    | false => exact .last (hyields.mono fun _ _ hd => hd.1)
    | true =>
      rw [if_pos rfl] at hlisted
      obtain ⟨nodes, c₃, st₃, hcollect, hdone⟩ := Walk.of_runOn_bind hlisted
      rw [Walk.runOn_pure] at hdone
      cases hdone
      rcases Place.nextSet_eq sets p with ⟨j, hplace, -⟩ | ⟨hplace, -⟩
      · rw [hplace] at hc₂
        obtain ⟨henumerable, hext', ⟨i', hc₁⟩, hback'⟩ := h.enumerable hr hs hc₂ (hst.trans hext) hcollect
        have hreplay := ih hc₁ ((hst.trans hext).trans hext') hrest
        rw [hback', hback] at hreplay
        exact .next (hyields.mono fun _ _ hd => hd.2) henumerable hreplay
      · rw [hplace] at hfound
        cases hfound

/-- The sets behind the present one. -/
def Place.toCome (sets : List (List Pointer)) : Place → List (List Pointer)
  | before => sets
  | within j _ => sets.drop (j + 1)
  | after => []

/-- The next set is the first of those to come. -/
theorem Place.nextSet_toCome (sets : List (List Pointer)) (p : Place) :
    (∃ j, p.nextSet sets = within j 0 ∧ p.toCome sets = nthSet sets j :: (within j 0).toCome sets) ∨
      (p.nextSet sets = after ∧ p.toCome sets = []) := by
  have hfrom : ∀ k, (∃ j, (if k < sets.length then within k 0 else after) = within j 0 ∧
      sets.drop k = nthSet sets j :: (within j 0).toCome sets) ∨
      ((if k < sets.length then within k 0 else after) = after ∧ sets.drop k = []) := by
    intro k
    by_cases hk : k < sets.length
    · refine .inl ⟨k, if_pos hk, ?_⟩
      rw [List.drop_eq_getElem_cons hk, nthSet, List.getElem?_eq_getElem hk]
      rfl
    · exact .inr ⟨if_neg hk, List.drop_eq_nil_of_le (Nat.le_of_not_lt hk)⟩
  cases p with
  | before => exact hfrom 0
  | within j i => exact hfrom (j + 1)
  | after => exact .inr ⟨rfl, rfl⟩

/-- **A traversal** lists the sets, of which there are fewer than a repetition has rounds. -/
theorem Traverses.traversal (h : Traverses base m stands sets) (hc : stands c .before) :
    m.traversal.Ensures base c fun lists _ => lists = sets ∧ sets.length < Walk.limit := by
  refine (Walk.Ensures.collectAll (I := fun l c => ∃ p, stands c p ∧ l = p.toCome sets) ?_ ⟨.before, hc, rfl⟩).mono
    fun _ _ hlists => ⟨hlists.1, hlists.2.2⟩
  rintro _ c ⟨p, hc, rfl⟩
  refine (h.nextSet hc).bind fun found c' hc' => ?_
  obtain ⟨hc', rfl⟩ := hc'
  rcases Place.nextSet_toCome sets p with ⟨j, hplace, hsets⟩ | ⟨hplace, hsets⟩
  · rw [hplace] at hc' ⊢
    refine .ite (fun _ => ?_) fun hnot => absurd rfl hnot
    refine (Walk.Ensures.collectAll (I := fun l c => ∃ i, stands c (.within j i) ∧ l = (nthSet sets j).drop i)
      ?_ ⟨0, hc', rfl⟩).bind fun nodes c'' hc'' => ?_
    · rintro _ c ⟨i, hc, rfl⟩
      refine (h.take hc).mono fun p? c' hc' => ?_
      obtain ⟨hp, i', hc', htail⟩ := hc'
      exact ⟨hp, i', hc', htail⟩
    · obtain ⟨rfl, ⟨i, hc'', -⟩, -⟩ := hc''
      exact .pure ⟨by rw [hsets]; rfl, .within j i, hc'', by rw [hsets]; rfl⟩
  · rw [hplace] at hc' ⊢
    refine .ite (fun hyes => absurd hyes Bool.false_ne_true) fun _ => ?_
    exact .pure ⟨by rw [hsets]; rfl, .after, hc', by rw [hsets]; rfl⟩

end

/-! ## §E  Sure cursors -/

section

variable {base : Store} {s : Surroundings} {up : Motion} {stands : Cursor → Place → Prop}
  {sets : List (List Pointer)} {start c : Cursor} {p : Place} {st : Store}

/-- **Assured** says that a cursor stands at a place from which everything that is to come in its set, and all sets
from its set on, have been gone through. -/
structure Assured (base : Store) (m : Motion) (stands : Cursor → Place → Prop) (sets : List (List Pointer))
    (c : Cursor) (p : Place) : Prop where
  stands : stands c p
  isIn : p.IsIn sets
  replayable : p ≠ .after → Replayable base m c.rewound
  enumerable : ∀ j i, p = .within j i → Enumerable base m c ∧ Enumerable base m c.rewound

/-- Looking for the next set begins by going back. -/
theorem Motion.runOn_advanceSet_rewound (up : Motion) (c : Cursor) (st : Store) :
    up.advanceSet.runOn c.rewound st = up.advanceSet.runOn c st := by
  rw [Motion.advanceSet, Walk.runOn_bind, Walk.runOn_bind, Walk.runOn_move, Walk.runOn_move, Cursor.rewound_idem]

/-- A cursor that finds a set is in it. -/
theorem Motion.progress_of_advanceSet {c' : Cursor} {st' : Store}
    (h : up.advanceSet.runOn c st = (.ok true, c', st')) : c'.frame.progress = .inSet := by
  rw [Motion.advanceSet, Walk.runOn_bind, Walk.runOn_move] at h
  dsimp only at h
  rw [Walk.runOn_frame_bind] at h
  split at h
  · cases h
  · obtain ⟨found, c₁, st₁, -, h⟩ := Walk.of_runOn_bind h
    rw [Walk.runOn_bind, Walk.runOn_modifyFrame] at h
    cases h
    rfl

/-- A cursor that has not started goes to its next node by way of its first set. -/
theorem Motion.runOn_advanceNode_notStarted (h : c.frame.progress = .notStarted) (st : Store) :
    (up.advanceNode s).runOn c st =
      (do if ← up.advanceSet then up.advanceNode s else pure false : Walk Bool).runOn c st := by
  have hinside : up.isInSet.runOn c st = up.advanceSet.runOn c st := by
    rw [Motion.isInSet, Walk.runOn_frame_bind, h]
  rw [Motion.advanceNode, Walk.runOn_bind, Walk.runOn_bind, hinside]
  rcases hset : up.advanceSet.runOn c st with ⟨r, c', st'⟩
  cases r with
  | error e => rfl
  | ok found =>
    cases found with
    | false => rfl
    | true =>
      have hinside' : up.isInSet.runOn c' st' = (.ok true, c', st') := by
        rw [Motion.isInSet, Walk.runOn_frame_bind, Motion.progress_of_advanceSet hset]
        rfl
      show _ = (up.advanceNode s).runOn c' st'
      rw [Motion.advanceNode, Walk.runOn_bind, hinside']

namespace Assured

variable {j i : Nat}

theorem nextSet (h : Traverses base (up.next s) stands sets) (hr : Retraces base (up.next s) stands start)
    (hc : Assured base (up.next s) stands sets c p) :
    (up.next s).nextSet.Yields base c fun found c' =>
      Assured base (up.next s) stands sets c' (p.nextSet sets) ∧ found = (p.nextSet sets).isWithin := by
  have hmoves := (h.nextSet hc.stands).and (hr.nextSet hc.stands)
  by_cases hp : p = .after
  · subst hp
    have hprogress := ((h.faces (h.rewound hc.stands)).1 : c.rewound.frame.progress = .exhausted)
    refine ⟨.move_bind (.frame_bind (.ite (fun _ => .pure _) fun hne => absurd ?_ hne)), ?_⟩
    · rw [hprogress]
      rfl
    · exact hmoves.mono fun _ c' hc' =>
        ⟨⟨hc'.1.1, fun _ _ he => (nomatch he), fun hne => absurd rfl hne, fun _ _ he => (nomatch he)⟩, hc'.1.2⟩
  -- Looking for a set puts the cursor back first, so what was found from there is found from here.
  · have hreplay : (up.next s).nextSet.Yields base c _ :=
      (hc.replayable hp).nextSet.congr fun st => (up.runOn_advanceSet_rewound c st).symm
    refine (hreplay.and hmoves).mono fun found c' hc' => ?_
    obtain ⟨hnext, ⟨hstands, hfound⟩, hback⟩ := hc'
    refine ⟨?_, hfound⟩
    rcases Place.nextSet_eq sets p with ⟨j, hplace, -⟩ | ⟨hplace, -⟩
    · rw [hplace] at hstands hfound ⊢
      obtain ⟨henumerable, hreplayable⟩ := hnext hfound
      refine ⟨hstands, ?_, fun _ => hback.symm ▸ hreplayable, fun _ _ _ => ⟨henumerable, hback.symm ▸ henumerable⟩⟩
      rintro _ _ he
      cases he
      exact Nat.zero_le _
    · rw [hplace] at hstands ⊢
      exact ⟨hstands, fun _ _ he => (nomatch he), fun hne => absurd rfl hne, fun _ _ he => (nomatch he)⟩

theorem nextNode_within (h : Traverses base (up.next s) stands sets) (hr : Retraces base (up.next s) stands start)
    (hc : Assured base (up.next s) stands sets c (.within j i)) :
    (up.next s).nextNode.Yields base c fun found c' =>
      Assured base (up.next s) stands sets c' ((Place.within j i).nextNode sets) ∧
        found = (Place.within j i).hasNext sets := by
  obtain ⟨henumerable, hagain⟩ := hc.enumerable j i rfl
  refine ((henumerable.nextNode.and (h.nextNode hc.stands)).and (hr.nextNode hc.stands)).mono fun found c' hc' => ?_
  obtain ⟨⟨hleft, hstands, hfound⟩, hback, -⟩ := hc'
  refine ⟨⟨hstands, ?_, fun _ => hback ▸ hc.replayable (fun he => nomatch he), fun _ _ _ => ⟨hleft, hback ▸ hagain⟩⟩,
    hfound⟩
  unfold Place.nextNode
  split
  · rintro _ _ he
    cases he
    exact of_decide_eq_true ‹_›
  · exact hc.isIn

theorem nextNode (h : Traverses base (up.next s) stands sets) (hr : Retraces base (up.next s) stands start)
    (hc : Assured base (up.next s) stands sets c p) :
    (up.next s).nextNode.Yields base c fun found c' =>
      Assured base (up.next s) stands sets c' (p.nextNode sets) ∧ found = (p.entered sets).hasNext sets := by
  have hfaces := h.faces hc.stands
  cases p with
  | within j i => exact nextNode_within h hr hc
  | after =>
    have hinside : up.isInSet.Yields base c fun inside c' => inside = false ∧ c' = c := by
      refine .frame_bind ?_
      rw [hfaces.1]
      exact .pure ⟨rfl, rfl⟩
    refine Walk.Yields.bind (m := up.isInSet) hinside fun inside c' hc' => ?_
    obtain ⟨rfl, rfl⟩ := hc'
    exact .pure ⟨hc, rfl⟩
  | before =>
    have hyields : (do if ← up.advanceSet then up.advanceNode s else pure false : Walk Bool).Yields base c
        fun found c' => Assured base (up.next s) stands sets c' (Place.before.nextNode sets) ∧
          found = (Place.before.entered sets).hasNext sets := by
      refine (nextSet h hr hc).bind fun found c' hc' => ?_
      obtain ⟨hc', rfl⟩ := hc'
      -- The first set is entered, or there is none.
      have hentered : Place.before.entered sets = Place.before.nextSet sets := rfl
      rw [Place.nextNode, hentered]
      rcases Place.nextSet_eq sets .before with ⟨j, hplace, -⟩ | ⟨hplace, -⟩
      · rw [hplace] at hc' ⊢
        exact .ite (fun _ => nextNode_within h hr hc') fun hnot => absurd rfl hnot
      · rw [hplace] at hc' ⊢
        exact .ite (fun hyes => absurd hyes Bool.false_ne_true) fun _ => .pure ⟨hc', rfl⟩
    exact hyields.congr (Motion.runOn_advanceNode_notStarted hfaces.1)

/-- **What was traversed once is sure.** -/
theorem surefooted (h : Traverses base (up.next s) stands sets) (hr : Retraces base (up.next s) stands start)
    (hsearches : ∀ {c p}, stands c p → ∀ k, Motion.knownAt? k c.frame.stage = none)
    (hshort : ∀ j, (nthSet sets j).length < Walk.limit)
    (hstart : Assured base (up.next s) stands sets start .before) :
    Surefooted base (up.next s) (Assured base (up.next s) stands sets) sets where
  faces hc := h.faces hc.stands
  isIn hc := hc.isIn
  searches hc := hsearches hc.stands
  rewound {c p} hc := by
    refine ⟨h.rewound hc.stands, ?_, fun hp => ?_, fun j i he => ?_⟩
    · cases p with
      | within j i =>
        rintro _ _ he
        cases he
        exact Nat.zero_le _
      | _ => exact fun _ _ he => nomatch he
    · rw [Cursor.rewound_idem]
      exact hc.replayable fun he => hp (by rw [he]; rfl)
    · rw [Cursor.rewound_idem]
      cases p with
      | within j i => exact ⟨(hc.enumerable j i rfl).2, (hc.enumerable j i rfl).2⟩
      | _ => cases he
  restarted hc := by rw [hr.restarted hc.stands]; exact hstart
  nextSet := nextSet h hr
  nextNode := nextNode h hr
  short := hshort

end Assured

end

/-! ## §F  Chains of stages -/

/-- **LaterStage** is a stage that looks for its nodes by those of the stages before it. -/
inductive LaterStage where
  | along (a : Axis) (t : NodeTest)
  | keeping (e : Expr)

/-- The stage before its first node. -/
def LaterStage.stage : LaterStage → Stage
  | along a t => .axis a t none
  | keeping e => .condition e (!e.isContextDependent) false

/-- **chain** is a cursor that has not started, with a first stage and later ones. -/
def Cursor.chain (first : Stage) (later : List LaterStage) : Cursor :=
  later.foldl (fun c l => c.push l.stage) ⟨.fresh first, []⟩

/-- A later stage looks for its nodes. -/
theorem LaterStage.knownAt?_eq_none {l : LaterStage} {stage : Stage} (h : Cursor.Stage.rewound stage = l.stage)
    (k : Nat) : Motion.knownAt? k stage = none := by
  cases stage with
  | start origin members => cases l <;> cases h
  | known nodes order => cases l <;> cases h
  | axis a t pending => rfl
  | condition e positional done => rfl

/-- **GoesBack** says that a cursor that has not started goes through sets of nodes of a realm, and that it goes back
over them without a trace. -/
structure Cursor.GoesBack (base : Store) (s : Surroundings) (has : Pointer → Prop) (c : Cursor)
    (sets : List (List Pointer)) : Prop where
  delivers : c.Delivers base s has sets
  retraces : ∃ stands, Traverses base (c.motion s) stands sets ∧ Retraces base (c.motion s) stands c ∧
    stands c .before

namespace Cursor.GoesBack

variable {base : Store} {s : Surroundings} {has : Pointer → Prop} {c : Cursor} {sets : List (List Pointer)}

theorem known {stage : Stage} {nodes : List Pointer} (hs : Grounded base s) (hr : Realm base has)
    (hstage : stage.knows = some nodes) (halike : ∀ w, base.Extends w.base → stage.Alike w stage)
    (hnodes : ∀ p ∈ nodes, has p) (hnarrow : nodes.length ≤ Number.exactBound) :
    (⟨.fresh stage, []⟩ : Cursor).GoesBack base s has [nodes] where
  delivers := Cursor.Delivers.known hs hr hstage halike hnodes hnarrow
  retraces := by
    have hsupplies : Supplies base s .still (KnowsAt stage) [nodes] :=
      supplies_known hstage halike fun p hp w hw => hr.alike (hnodes p hp) hw
    refine ⟨_, hsupplies.traverses fun w hw => (hs.natural w hw).alike, (replays_known hstage).retraces hsupplies, ?_⟩
    exact ⟨⟨rfl, rfl, fun _ _ he => nomatch he⟩, ⟨rfl, rfl, rfl⟩, rfl⟩

/-- **One more stage.** -/
theorem push (h : c.GoesBack base s has sets) (hs : Grounded base s) (hr : Realm base has) (l : LaterStage) :
    ∃ sets', (c.push l.stage).GoesBack base s has sets' := by
  obtain ⟨stands, htraverses, hretraces, hc⟩ := h.retraces
  have hcovers := h.delivers.covers
  cases l with
  | along a t =>
    have hsupplies := htraverses.supplies_along hs hr hcovers a t
    refine ⟨_, h.delivers.pushAxis hs hr a t, _, hsupplies.traverses fun w hw => (hs.natural w hw).alike,
      (hretraces.replays_along htraverses hr hcovers).retraces hsupplies, ?_⟩
    exact ⟨.before rfl hc, ⟨rfl, rfl, rfl⟩, rfl⟩
  | keeping e =>
    have hsupplies := htraverses.supplies_condition hs hr hcovers e
    refine ⟨_, h.delivers.pushCondition hs hr e, _, hsupplies.traverses fun w hw => (hs.natural w hw).alike,
      (hretraces.replays_condition htraverses hs hr hcovers e).retraces hsupplies, ?_⟩
    exact ⟨.before rfl hc, ⟨rfl, rfl, rfl⟩, rfl⟩

theorem pushAll (h : c.GoesBack base s has sets) (hs : Grounded base s) (hr : Realm base has)
    (later : List LaterStage) : ∃ sets', (later.foldl (fun c l => c.push l.stage) c).GoesBack base s has sets' := by
  induction later generalizing c sets with
  | nil => exact ⟨sets, h⟩
  | cons l later ih =>
    obtain ⟨sets', h'⟩ := h.push hs hr l
    exact ih h'

/-- **A cursor that was traversed once is sure**, if its last stage is a later one. -/
theorem surefooted_of_traversal {l : LaterStage} (h : (c.push l.stage).GoesBack base s has sets) (hs : Grounded base s)
    {st : Store} (hst : base.Extends st) {lists : List (List Pointer)}
    (hfresh : (((c.push l.stage).motion s).traversal.runOn (c.push l.stage) st).1 = .ok lists) :
    lists = sets ∧ lists.length < Walk.limit ∧ ∃ stands, Traverses base ((c.motion s).next s) stands lists ∧
      Retraces base ((c.motion s).next s) stands (c.push l.stage) ∧
      Surefooted base ((c.motion s).next s) (Assured base ((c.motion s).next s) stands lists) lists ∧
      Assured base ((c.motion s).next s) stands lists (c.push l.stage) .before := by
  obtain ⟨stands, htraverses, hretraces, hstart⟩ := h.retraces
  have hmotion : (c.push l.stage).motion s = (c.motion s).next s := rfl
  rw [hmotion] at htraverses hretraces hfresh
  rcases hrun : ((c.motion s).next s).traversal.runOn (c.push l.stage) st with ⟨r, c', st'⟩
  rw [hrun] at hfresh
  obtain rfl : r = .ok lists := hfresh
  obtain ⟨-, rfl, hshort⟩ := htraverses.traversal hstart st hst _ _ _ hrun
  have hassured : Assured base ((c.motion s).next s) stands lists (c.push l.stage) .before :=
    ⟨hstart, fun _ _ he => (nomatch he),
      fun _ => htraverses.replayable hretraces hs (c.motion s).runOn_advanceSet_rewound hstart hst hrun,
      fun _ _ he => (nomatch he)⟩
  have hsearches : ∀ {d p}, stands d p → ∀ k, Motion.knownAt? k d.frame.stage = none := fun hd k =>
    LaterStage.knownAt?_eq_none (congrArg (fun d => d.frame.stage) (hretraces.restarted hd)) k
  exact ⟨rfl, hshort, stands, htraverses, hretraces, Assured.surefooted htraverses hretraces hsearches
    (fun j => Nat.lt_of_le_of_lt (h.delivers.covers.narrow j) Number.exactBound_lt_limit) hassured,
    hassured⟩

/-- **It answers plainly.** -/
theorem answers {l : LaterStage} (h : (c.push l.stage).GoesBack base s has sets) (hs : Grounded base s)
    {st₁ st₂ : Store} (h₁ : base.Extends st₁) (h₂ : base.Extends st₂) {lists : List (List Pointer)}
    (hfresh : (((c.push l.stage).motion s).traversal.runOn (c.push l.stage) st₁).1 = .ok lists) (moves : List Move) :
    ((((c.push l.stage).motion s).answers moves).runOn (c.push l.stage) st₂).1 = .ok (Place.before.answers lists moves) := by
  obtain ⟨-, -, stands, -, -, hsure, hassured⟩ := h.surefooted_of_traversal hs h₁ hfresh
  obtain ⟨answers, c₂, st₂', hanswers⟩ := (hsure.answers hassured moves).works st₂ h₂
  obtain ⟨-, rfl, -⟩ := (hsure.answers hassured moves).ensures st₂ h₂ _ _ _ hanswers
  have hmotion : (c.push l.stage).motion s = (c.motion s).next s := rfl
  rw [hmotion, hanswers]

end Cursor.GoesBack

/-! ## §G  Documents -/

/-- **StartsIn** says that a first stage knows nodes of a document. What it starts from may be a variable that holds
them. -/
structure Stage.StartsIn (first : Stage) (st : Store) (root : Pointer) (nodes : List Pointer) : Prop where
  knows : first.knows = some nodes
  origin : ∀ p members, first = .start p members → p.Within st.documents.size
  among : ∀ p ∈ nodes, p ∈ root.listing st
  narrow : nodes.length ≤ Number.exactBound

section

variable {st st' : Store} {root : Pointer} {c : Context} {host : Host} {first : Stage} {nodes : List Pointer}
  {later : List LaterStage} {sets : List (List Pointer)}

theorem Stage.StartsIn.alike (h : first.StartsIn st root nodes) (hrealm : Realm st (· ∈ root.listing st)) (w : World)
    (hw : st.Extends w.base) : first.Alike w first := by
  have hnodes : PointersAlike w nodes nodes := List.forall₂_same.mpr fun p hp => hrealm.alike (h.among p hp) hw
  have hknows := h.knows
  have horigin := h.origin
  cases first with
  | start p members =>
    have hp : p.Alike w p := Pointer.Within.alike ((horigin p members rfl).mono hw.size_le)
    cases members with
    | none => exact .start hp .none
    | some members =>
      cases hknows
      exact .start hp (.some hnodes)
  | known nodes order =>
    cases hknows
    exact .known order hnodes
  | axis a t pending => cases hknows
  | condition e positional done => cases hknows

/-- A chain of stages goes back over its sets. -/
theorem Stage.StartsIn.goesBack (hfirst : first.StartsIn st root nodes) (hroot : IsDocument st root)
    (hc : c.Settled host st) (later : List LaterStage) :
    ∃ sets, (Cursor.chain first later).GoesBack st (c.surroundings host) (· ∈ root.listing st) sets := by
  have hs := hc.grounded
  have hrealm := (hroot.charted hs).realm
  have hstart : (⟨.fresh first, []⟩ : Cursor).GoesBack st (c.surroundings host) (· ∈ root.listing st) [nodes] :=
    .known hs hrealm hfirst.knows (hfirst.alike hrealm) hfirst.among hfirst.narrow
  exact hstart.pushAll hs hrealm later

theorem Cursor.chain_concat (first : Stage) (later : List LaterStage) (l : LaterStage) :
    Cursor.chain first (later.concat l) = (Cursor.chain first later).push l.stage := by
  rw [chain, List.concat_eq_append, List.foldl_append]
  rfl

/-- A stage that starts at the top of a document knows a node of it. -/
theorem startsIn_firstTop (j : Json) : (Stage.start .firstTop none).StartsIn (.holding j) .firstTop [.firstTop] where
  knows := rfl
  origin := by
    rintro _ _ ⟨⟩
    exact show 0 < 1 by decide
  among := by simpa using firstTop_mem_listing (.holding j)
  narrow := show 1 ≤ Number.exactBound by decide

/-- **A chain of stages is random access to its sets**: when it goes through all sets once without an error, every
sequence of moves is answered as by a plain cursor over these sets, with the positions that the plain cursor has. -/
theorem chain_answers (hroot : IsDocument st root) (hc : c.Settled host st) (hfirst : first.StartsIn st root nodes)
    (hlater : later ≠ [])
    (hfresh : (((Cursor.chain first later).motion (c.surroundings host)).traversal.runOn (.chain first later) st).1 =
      .ok sets)
    (hst : st.Extends st') (moves : List Move) :
    ((((Cursor.chain first later).motion (c.surroundings host)).answers moves).runOn (.chain first later) st').1 =
      .ok (Place.before.answers sets moves) := by
  have hs := hc.grounded
  have hrealm := (hroot.charted hs).realm
  have hstart : (⟨.fresh first, []⟩ : Cursor).GoesBack st (c.surroundings host) (· ∈ root.listing st) [nodes] :=
    .known hs hrealm hfirst.knows (hfirst.alike hrealm) hfirst.among hfirst.narrow
  obtain ⟨before, l, rfl⟩ := (List.eq_nil_or_concat later).resolve_left hlater
  obtain ⟨sets', hbefore⟩ := hstart.pushAll hs hrealm before
  obtain ⟨sets'', hchain⟩ := hbefore.push hs hrealm l
  have hlast : Cursor.chain first (before.concat l) = (Cursor.chain first before).push l.stage := by
    rw [Cursor.chain, List.concat_eq_append, List.foldl_append]
    rfl
  rw [hlast] at hfresh ⊢
  exact hchain.answers hs (.refl hs.sound) hst hfresh moves

/-- A document with two rows, of three numbers and of one. -/
def rowsDocument : Json :=
  .object [("a", .array [.object [("b", .array [.int 1, .int 2, .int 3])], .object [("b", .array [.int 4])]])]

/-- The numbers of each row but the last: the predicate asks for the size of the set. -/
def allButLast : List LaterStage :=
  [.along .child (.name (.plain "a")), .along .child (.name (.plain "b")),
    .keeping (.operation .less [.core .position [], .core .last []])]

/-- How the cursor over these numbers moves. -/
def rowsMotion : Motion := (Cursor.chain (.start .firstTop none) allButLast).motion (Context.atTop.surroundings stockHost)

/-- There and back over the numbers of the first row, and to the second row, which has none. -/
def thereAndBack : List Move :=
  [.current, .listSet, .setPosition 9, .rewind, .nextSet, .setPosition 1, .nextSet, .restart, .nextNode]

theorem chain_answers_rows :
    ∃ sets, (rowsMotion.traversal.runOn (.chain (.start .firstTop none) allButLast) (.holding rowsDocument)).1 = .ok sets ∧
      sets.map (·.map (·.pathText (.holding rowsDocument))) = [["/a[1]/b[1]", "/a[1]/b[2]"], []] ∧
      ((rowsMotion.answers thereAndBack).runOn (.chain (.start .firstTop none) allButLast) (.holding rowsDocument)).1 =
        .ok (Place.before.answers sets thereAndBack) := by
  have hpaths : (rowsMotion.traversal.runOn (.chain (.start .firstTop none) allButLast)
      (.holding rowsDocument)).1.toOption.map (·.map (·.map (·.pathText (.holding rowsDocument)))) =
        some [["/a[1]/b[1]", "/a[1]/b[2]"], []] := by decide +kernel
  obtain ⟨sets, hsets, hpaths⟩ := Option.map_eq_some_iff.mp hpaths
  rcases hrun : rowsMotion.traversal.runOn (.chain (.start .firstTop none) allButLast) (.holding rowsDocument) with
    ⟨r, c', st'⟩
  rw [hrun] at hsets
  cases r with
  | error e => cases hsets
  | ok lists =>
    cases hsets
    have hc := Context.settled_atTop rowsDocument
    have hroot : IsDocument (.holding rowsDocument) .firstTop :=
      isDocument_firstTop (by decide +kernel) (by decide +kernel)
    have hfirst : (Stage.start .firstTop none).StartsIn (.holding rowsDocument) .firstTop [.firstTop] := {
      knows := rfl
      origin := fun p members he => by
        cases he
        exact show 0 < 1 by decide
      among := by simpa using firstTop_mem_listing (.holding rowsDocument)
      narrow := show 1 ≤ Number.exactBound by decide }
    have hfresh : (rowsMotion.traversal.runOn (.chain (.start .firstTop none) allButLast) (.holding rowsDocument)).1 =
        .ok sets := by rw [hrun]
    refine ⟨sets, rfl, hpaths, ?_⟩
    exact chain_answers hroot hc hfirst (by decide) hfresh (.refl hc.grounded.sound) thereAndBack

end

end NodePath
